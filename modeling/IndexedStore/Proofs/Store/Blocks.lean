import IndexedStore.Proofs.Operation.Delete
import IndexedStore.Proofs.Operation.Healthy
import IndexedStore.Proofs.Query.Emitted
import IndexedStore.Proofs.Store.Emptied
import IndexedStore.Proofs.Store.History

/-! # One block of events for each operation

An operation of the interface is reported by a start as its first event and a finish as its last,
or by neither. Main statement: for every row of operations, over any content and whichever calls
fail, the events split into such blocks, and each finish tells the truth about the result.
-/
namespace IndexedStore

open IndexedStore.Task (Does Logs rowsOf)

inductive Operation where
  | save (e : Entity)
  | deleteById (keyspace id : String)
  | deleteAll (keyspace : String)
  | findById (keyspace id : String)
  | findByIds (keyspace : String) (ids : List String)
  | findAll (keyspace : String) (page : Option PageRequest)
  | execute (q : Query)
  | executeIds (q : Query)
  | contains (keyspace id : String)
  | count (keyspace : String)

namespace Operation

abbrev Answer : Operation → Type
  | save _ => String
  | deleteById _ _ | contains _ _ => Bool
  | deleteAll _ | count _ => Nat
  | findById _ _ => Option Entity
  | findByIds _ _ => List Entity
  | findAll _ _ | execute _ => Page Entity
  | executeIds _ => IdPage

def run (db : Database) : (o : Operation) → Task o.Answer
  | save e => db.save e
  | deleteById keyspace id => db.deleteById keyspace id
  | deleteAll keyspace => db.deleteAll keyspace
  | findById keyspace id => db.findById keyspace id
  | findByIds keyspace ids => db.findByIds keyspace ids
  | findAll keyspace page => db.findAll keyspace page
  | execute q => db.execute q
  | executeIds q => db.executeIds q
  | contains keyspace id => db.contains keyspace id
  | count keyspace => db.count keyspace

/-- The kind and the keyspace that an operation is reported with, if it is: the operations that
answer with ids, a number or whether something is there are not, nor are those that the schema
refuses. -/
def span? (schema : Schema) : Operation → Option (ExecKind × String)
  | save e => (schema.model e.keyspace).toOption.map fun _ => (.save, e.keyspace)
  | deleteById keyspace _ => (schema.model keyspace).toOption.map fun _ => (.delete, keyspace)
  | deleteAll keyspace => (schema.model keyspace).toOption.map fun _ => (.flush, keyspace)
  | findById keyspace _ | findByIds keyspace _ =>
    (schema.model keyspace).toOption.map fun _ => (.load, keyspace)
  | findAll keyspace page =>
    (schema.plan ⟨keyspace, none, page⟩).toOption.map fun _ => (.load, keyspace)
  | execute q => (schema.plan q).toOption.map fun _ => (.load, q.keyspace)
  | executeIds _ | contains _ _ | count _ => none

def returned : (o : Operation) → o.Answer → List Entity
  | findById _ _, e => e.toList
  | findByIds _ _, l => l
  | findAll _ _, page | execute _, page => page.items
  | save _, _ | deleteById _ _, _ | deleteAll _, _ | executeIds _, _ | contains _ _, _
  | count _, _ => []

/-- The number of entities that an operation saved, removed or returned. -/
def rows : (o : Operation) → o.Answer → Nat
  | save _, _ => 1
  | deleteById _ _, removed => if removed then 1 else 0
  | deleteAll _, n => n
  | o, a => (o.returned a).length

/-- What was removed is what was there before and is there no longer. -/
def Removes (c c' : Content) : (o : Operation) → o.Answer → Prop
  | deleteById keyspace id, removed =>
    removed = (c.stored? keyspace id).isSome ∧ c'.stored? keyspace id = none
  | deleteAll keyspace, n =>
    n = (c.ids (Key.membersPrefix keyspace)).size ∧ c'.ids (Key.membersPrefix keyspace) = Dict.empty
  | _, _ => True

end Operation

/-- The first event starts the span and the last one finishes it with the rows. No other event is
a start or a finish. -/
def Bounds (rows : Nat) : Option (ExecKind × String) → List Event → Prop
  | none, events => ∀ e ∈ events, e.isBound = false
  | some (kind, keyspace), events => ∃ inner,
    events = .started kind keyspace :: inner ++ [.finished kind keyspace (UInt64.ofNat rows)] ∧
      ∀ e ∈ inner, e.isBound = false

/-- The events of an operation that takes the content `c` to `c'` with the result `r`. After a
failure the finish tells of no rows. After a success it tells the number of rows, and the misses
are those of the returned entities. -/
structure Block (db : Database) (o : Operation) (c : Content) (r : Except Error o.Answer)
    (c' : Content) (events : List Event) : Prop where
  bounds : Bounds (rowsOf o.rows r) (o.span? db.schema) events
  misses : ∀ a, r = .ok a → ∃ missed, List.Forall₂ (db.Missed c) (o.returned a) missed ∧
    events.filter Event.isMiss = missed.flatten
  removes : ∀ a, r = .ok a → o.Removes c c' a

theorem Progress.plain {α : Type} {keyspace : String} {idle : α → Prop}
    {staged : IndexPlan → Batch → Prop} {r : Except Error α} {acts : List Activity}
    (h : Progress keyspace idle staged r acts) : ∀ a ∈ acts, a.Tells Event.Plain := by
  have hplan : ∀ {reads rest : List Activity} (p : IndexPlan), (∀ a ∈ reads, a.Reads) →
      (∀ a ∈ rest, a.Tells Event.Plain) →
        ∀ a ∈ reads ++ .event (p.delta keyspace) :: rest, a.Tells Event.Plain :=
    fun p hreads hrest => List.forall_mem_append.mpr
      ⟨fun a ha => (hreads a ha).tells, List.forall_mem_cons.mpr ⟨⟨rfl, rfl⟩, hrest⟩⟩
  cases h with
  | unstaged hreads _ => exact fun a ha => (hreads a ha).tells
  | tooLong hreads => exact hplan _ hreads (List.forall_mem_nil _)
  | refused hreads _ => exact hplan _ hreads (List.forall_mem_singleton.mpr trivial)
  | committed hreads _ =>
    exact hplan _ hreads (List.forall_mem_cons.mpr ⟨trivial, List.forall_mem_singleton.mpr trivial⟩)

namespace Database

variable {db : Database} {o : Operation} {c : Content}

/-- What an operation does between its bounds. -/
def Body (db : Database) (o : Operation) (c : Content) (r : Except Error o.Answer) (c' : Content)
    (acts : List Activity) : Prop :=
  db.Inner o.returned c r acts ∧ ∀ a, r = .ok a → o.Removes c c' a

theorem Body.unspanned {r : Except Error o.Answer} {c' : Content} {acts : List Activity}
    (h : db.Body o c r c' acts) (hspan : o.span? db.schema = none) :
    Block db o c r c' (acts.filterMap Activity.event?) where
  bounds := by
    rw [hspan]
    exact Activity.events_of_tells h.1.unbounded
  misses := h.1.returns
  removes := h.2

theorem Body.spanned {r : Except Error o.Answer} {c' : Content} {acts inner : List Activity}
    {kind : ExecKind} {keyspace : String} (h : db.Body o c r c' inner)
    (hspan : o.span? db.schema = some (kind, keyspace))
    (hacts : acts = .event (.started kind keyspace) :: inner ++
      [.event (.finished kind keyspace (UInt64.ofNat (rowsOf o.rows r)))]) :
    Block db o c r c' (acts.filterMap Activity.event?) := by
  rw [hacts, Activity.events_of_span]
  refine ⟨?_, fun a ha => ?_, h.2⟩
  · rw [hspan]
    exact ⟨_, rfl, Activity.events_of_tells h.1.unbounded⟩
  · obtain ⟨missed, hmissed, hmisses⟩ := h.1.returns a ha
    refine ⟨missed, hmissed, ?_⟩
    rw [List.filter_append, List.filter_cons_of_neg Bool.false_ne_true,
      List.filter_cons_of_neg Bool.false_ne_true, List.filter_nil, List.append_nil]
    exact hmisses

theorem does_reported {β : Type} {x : Except Error β} {kind : ExecKind} {keyspace : String}
    {name : β → String} {rows : o.Answer → Nat} {body : β → Task o.Answer}
    (hspan : o.span? db.schema = x.toOption.map fun _ => (kind, keyspace))
    (hname : ∀ b, x = .ok b → name b = keyspace) (hrows : ∀ a, rows a = o.rows a)
    (hbody : ∀ b, x = .ok b → Does (body b) c (db.Body o c)) :
    Does (Task.ofExcept x >>= fun b => Task.spanned kind (name b) rows (body b)) c
      fun r c' acts => Block db o c r c' (acts.filterMap Activity.event?) := by
  obtain rfl : rows = o.rows := funext hrows
  have hx : Does (Task.ofExcept x) c fun r c' acts => r = x ∧ c' = c ∧ acts = [] :=
    Does.ofExcept ⟨rfl, rfl, rfl⟩
  refine hx.bind (fun y c' acts h => ?_) fun b c₁ acts h => ?_
  · obtain ⟨rfl, rfl, rfl⟩ := h
    refine ⟨?_, fun a ha => (by cases ha), fun a ha => (by cases ha)⟩
    rw [hspan]
    exact List.forall_mem_nil _
  · obtain ⟨rfl, rfl, rfl⟩ := h
    refine (hbody b rfl).spanned.mono fun r c' acts h => ?_
    obtain ⟨inner, hacts, hinner⟩ := h
    rw [hname b rfl] at hacts
    exact hinner.spanned hspan hacts

theorem does_unreported (hspan : o.span? db.schema = none) (hreturned : ∀ a, o.returned a = [])
    (hremoves : ∀ c' a, o.Removes c c' a) (hlogs : Logs (Activity.Tells Event.Plain) (o.run db)) :
    Does (o.run db) c fun r c' acts => Block db o c r c' (acts.filterMap Activity.event?) :=
  (hlogs c).mono fun _ c' _ h =>
    Body.unspanned ⟨.of_plain h fun a _ => hreturned a, fun a _ => hremoves c' a⟩ hspan

theorem Body.of_plain {t : Task o.Answer}
    {P : Except Error o.Answer → Content → List Activity → Prop} (ht : Does t c P)
    (hplain : ∀ r c' acts, P r c' acts → ∀ a ∈ acts, a.Tells Event.Plain)
    (hreturned : ∀ a, o.returned a = [])
    (hremoves : ∀ s a s', s.content = c → t s = (.ok a, s') → o.Removes c s'.content a) :
    Does t c (db.Body o c) := by
  intro s hs
  obtain ⟨acts, hdid, hP⟩ := ht s hs
  exact ⟨acts, hdid, .of_plain (hplain _ _ _ hP) fun a _ => hreturned a,
    fun a ha => hremoves s a _ hs (Prod.ext ha rfl)⟩

theorem Body.of_inner {t : Task o.Answer} (hremoves : ∀ c' a, o.Removes c c' a)
    (ht : Does t c fun r _ acts => db.Inner o.returned c r acts) : Does t c (db.Body o c) :=
  ht.mono fun _ c' _ h => ⟨h, fun a _ => hremoves c' a⟩

theorem logs_flush (db : Database) (m : KeyspaceModel) :
    Logs (Activity.Tells Event.Plain) (db.flush m) := by
  have hcommit : ∀ b : Batch, Logs (Activity.Tells Event.Plain) b.commit := by
    intro b
    unfold Batch.commit
    cases b.writes.isEmpty with
    | true => exact Logs.pure _
    | false => exact (Logs.perform trivial).bind fun _ => Logs.pure _
  exact ((Task.logs_scanIds _).mono fun _ => Activity.Reads.tells).bind fun _ =>
    (Logs.perform trivial).bind fun _ => (hcommit _).bind fun _ =>
      (Logs.note trivial).bind fun _ => Logs.pure _

theorem logs_contains (db : Database) (keyspace id : String) :
    Logs (Activity.Tells Event.Plain) (db.contains keyspace id) :=
  (Logs.ofExcept _).bind fun _ => (Logs.perform trivial).bind fun _ => Logs.pure _

theorem logs_count (db : Database) (keyspace : String) :
    Logs (Activity.Tells Event.Plain) (db.count keyspace) :=
  (Logs.ofExcept _).bind fun m => (Task.logs_lookupMembers m.name).bind fun _ => Logs.pure _

theorem logs_executeIds (db : Database) (q : Query) :
    Logs (Activity.Tells Event.Plain) (db.executeIds q) :=
  (Logs.ofExcept _).bind fun p => db.logs_pageIds p

theorem removes_deleteUnder {m : KeyspaceModel} {id : String} {removed : Bool} {s s' : Engine}
    (h : db.deleteUnder m id s = (.ok removed, s')) :
    (Operation.deleteById m.name id).Removes s.content s'.content removed := by
  obtain ⟨old, owned, rfl, hd⟩ := deleteUnder_eq_ok h
  have hold : old = s.content.stored? m.name id := Task.stored_of_on_load hd.loads
  refine ⟨by rw [hold], ?_⟩
  obtain ⟨hnone, -, hsame⟩ | hget := hd.removes
  · rw [hsame, ← hold, hnone]
  · rw [Content.stored?, hget, if_pos (.inr (.inl rfl))]

theorem removes_flush {m : KeyspaceModel} {n : Nat} {s s' : Engine}
    (h : db.flush m s = (.ok n, s')) :
    (Operation.deleteAll m.name).Removes s.content s'.content n := by
  obtain ⟨⟨ids, hids, rfl⟩, hget⟩ := flush_eq_ok h
  have hvacant : s'.content.Vacant m.name := fun key hkey => by
    rw [hget, if_pos (Key.under_iff.mp hkey)]
  obtain rfl : s.content.ids (Key.membersPrefix m.name) = ids := Except.ok.inj hids
  exact ⟨rfl, hvacant.ids_eq_empty (Key.Under.membersPrefix m.name)⟩

/-- Every operation tells one block. -/
theorem does_operation (db : Database) (o : Operation) (c : Content) :
    Does (o.run db) c fun r c' acts => Block db o c r c' (acts.filterMap Activity.event?) := by
  have hmodel : ∀ {keyspace : String} {m : KeyspaceModel}, db.schema.model keyspace = .ok m →
      db.schema.model m.name = .ok m := fun hm => by rw [Schema.name_of_model hm, hm]
  have hplan : ∀ {q : Query} {p : Plan}, db.schema.plan q = .ok p →
      db.schema.model p.model.name = .ok p.model := fun hp => hmodel (Schema.plan_eq_ok hp).1
  have hkeyspace : ∀ {q : Query} (p : Plan), db.schema.plan q = .ok p →
      p.model.name = q.keyspace := fun p hp => Schema.name_of_model (Schema.plan_eq_ok hp).1
  cases o with
  | save e =>
    refine does_reported (o := .save e) rfl (fun _ => Schema.name_of_model) (fun _ => rfl)
      fun m hm => ?_
    exact Body.of_plain (o := .save e) (db.does_saveUnder m e c) (fun _ _ _ h => h.plain)
      (fun _ => rfl) fun _ _ _ _ _ => trivial
  | deleteById keyspace id =>
    refine does_reported (o := .deleteById keyspace id) rfl (fun _ => Schema.name_of_model)
      (fun _ => rfl) fun m hm => ?_
    obtain rfl := Schema.name_of_model hm
    refine Body.of_plain (o := .deleteById m.name id) (db.does_deleteUnder m id c)
      (fun _ _ _ h => h.plain) (fun _ => rfl) ?_
    rintro s removed s' rfl hrun
    exact removes_deleteUnder hrun
  | deleteAll keyspace =>
    refine does_reported (o := .deleteAll keyspace) rfl (fun _ => Schema.name_of_model)
      (fun _ => rfl) fun m hm => ?_
    obtain rfl := Schema.name_of_model hm
    refine Body.of_plain (o := .deleteAll m.name) (db.logs_flush m c) (fun _ _ _ h => h)
      (fun _ => rfl) ?_
    rintro s n s' rfl hrun
    exact removes_flush hrun
  | findById keyspace id =>
    refine does_reported (o := .findById keyspace id) rfl (fun _ => Schema.name_of_model)
      (fun e => by cases e <;> rfl) fun m hm => ?_
    exact Body.of_inner (o := .findById keyspace id) (fun _ _ => trivial)
      (does_findUnder (hmodel hm) id c)
  | findByIds keyspace ids =>
    refine does_reported (o := .findByIds keyspace ids) rfl (fun _ => Schema.name_of_model)
      (fun _ => rfl) fun m hm => ?_
    exact Body.of_inner (o := .findByIds keyspace ids) (fun _ _ => trivial)
      (does_findMany (hmodel hm) ids c)
  | findAll keyspace page =>
    refine does_reported (o := .findAll keyspace page) rfl hkeyspace (fun _ => rfl) fun p hp => ?_
    exact Body.of_inner (o := .findAll keyspace page) (fun _ _ => trivial)
      (does_fetchPage (hplan hp) c)
  | execute q =>
    refine does_reported (o := .execute q) rfl hkeyspace (fun _ => rfl) fun p hp => ?_
    exact Body.of_inner (o := .execute q) (fun _ _ => trivial) (does_fetchPage (hplan hp) c)
  | executeIds q =>
    exact does_unreported rfl (fun _ => rfl) (fun _ _ => trivial) (db.logs_executeIds q)
  | contains keyspace id =>
    exact does_unreported rfl (fun _ => rfl) (fun _ _ => trivial) (db.logs_contains keyspace id)
  | count keyspace =>
    exact does_unreported rfl (fun _ => rfl) (fun _ _ => trivial) (db.logs_count keyspace)

end Database

/-! ## Rows of operations -/

/-- The events of a row of saves: a block for each entity, up to and including the first that
fails. -/
inductive SaveBlocks (db : Database) :
    List Entity → Content → Except Error (List String) → Content → List Event → Prop where
  | done {c : Content} : SaveBlocks db [] c (.ok []) c []
  | failed {e : Entity} {rest : List Entity} {c c' : Content} {x : Error} {events : List Event}
      (first : Block db (.save e) c (.error x) c' events) :
      SaveBlocks db (e :: rest) c (.error x) c' events
  | saved {e : Entity} {rest : List Entity} {c c' c'' : Content} {id : String}
      {r : Except Error (List String)} {events events' : List Event}
      (first : Block db (.save e) c (.ok id) c' events)
      (later : SaveBlocks db rest c' r c'' events') :
      SaveBlocks db (e :: rest) c (r.map (id :: ·)) c'' (events ++ events')

theorem Database.does_saveMany (db : Database) (l : List Entity) (c : Content) :
    Does (db.saveMany l) c fun r c' acts =>
      SaveBlocks db l c r c' (acts.filterMap Activity.event?) := by
  induction l generalizing c with
  | nil => exact Does.pure .done
  | cons e rest ih =>
    refine (db.does_operation (.save e) c).bind (fun x c' acts h => .failed h)
      fun id c' acts h => ?_
    refine (ih c').bind (fun x c'' acts' h' => ?_) fun ids c'' acts' h' => Does.pure ?_
    · rw [List.filterMap_append]
      exact .saved h h'
    · rw [List.append_nil, List.filterMap_append]
      exact .saved h h'

inductive Request where
  | one (o : Operation)
  | saveMany (l : List Entity)

namespace Request

abbrev Answer : Request → Type
  | one o => o.Answer
  | saveMany _ => List String

def run (db : Database) : (q : Request) → Task q.Answer
  | one o => o.run db
  | saveMany l => db.saveMany l

/-- The events of a request: one block, or a row of blocks if many entities are saved. -/
inductive Tells (db : Database) :
    (q : Request) → Content → Except Error q.Answer → Content → List Event → Prop where
  | one {o : Operation} {c c' : Content} {r : Except Error o.Answer} {events : List Event}
      (block : Block db o c r c' events) : Tells db (.one o) c r c' events
  | saveMany {l : List Entity} {c c' : Content} {r : Except Error (List String)}
      {events : List Event} (blocks : SaveBlocks db l c r c' events) :
      Tells db (.saveMany l) c r c' events

theorem does_run (db : Database) (q : Request) (c : Content) :
    Does (q.run db) c fun r c' acts => q.Tells db c r c' (acts.filterMap Activity.event?) := by
  cases q with
  | one o => exact (db.does_operation o c).mono fun _ _ _ h => .one h
  | saveMany l => exact (db.does_saveMany l c).mono fun _ _ _ h => .saveMany h

end Request

namespace Database

/-- The engine after a row of requests, each whether or not those before it failed. -/
def serve (db : Database) (requests : List Request) (s : Engine) : Engine :=
  requests.foldl (fun s q => (q.run db s).2) s

/-- The events of a row of requests from the engine `s` on. -/
inductive Recorded (db : Database) : List Request → Engine → List Event → Prop where
  | done {s : Engine} : Recorded db [] s []
  | next {q : Request} {rest : List Request} {s : Engine} {events events' : List Event}
      (first : q.Tells db s.content (q.run db s).1 (q.run db s).2.content events)
      (later : Recorded db rest (q.run db s).2 events') :
      Recorded db (q :: rest) s (events ++ events')

end Database

/-- Whatever is stored and whichever calls fail, the events of a row of requests split into those
of one request after the other. -/
theorem events_split_into_blocks (db : Database) (requests : List Request) (s : Engine) :
    ∃ events, s.Told (db.serve requests s) events ∧ db.Recorded requests s events := by
  induction requests generalizing s with
  | nil => exact ⟨[], .refl s, .done⟩
  | cons q rest ih =>
    obtain ⟨acts, hdid, hfirst⟩ := q.does_run db s.content s rfl
    obtain ⟨events, htold, hrest⟩ := ih (q.run db s).2
    exact ⟨_, Engine.Told.trans ⟨acts, hdid, rfl⟩ htold, .next hfirst hrest⟩

/-- Saving many entities is one request with a start and a finish for each of them, here for a
first one that is saved and a second one that is refused. -/
theorem each_save_reported :
    let db : Database := .indexing [] rfl
    let l : List Entity := [⟨"k", some "1", []⟩, ⟨"k", some "", []⟩]
    let events : List Event := [.started .save "k", .indexed "k" 0 0, .finished .save "k" 1,
      .started .save "k", .finished .save "k" 0]
    ∃ x s', db.saveMany l .empty = (.error x, s') ∧
      Engine.empty.Told s' events ∧ ∀ span rows, ¬Bounds rows span events := by
  intro db l events
  have hfailed : (db.saveMany l .empty).1.toOption = none := by decide +kernel
  have htold : (db.saveMany l .empty).2.journal.reverse.filterMap Activity.event? = events := by
    decide +kernel
  have hinside : Event.finished .save "k" 1 ∈ events.tail.dropLast := by decide +kernel
  rcases hrun : db.saveMany l .empty with ⟨x | ids, s'⟩ <;> rw [hrun] at hfailed htold
  · refine ⟨x, s', rfl, ⟨_, .of_fresh rfl, htold⟩, fun span rows h => ?_⟩
    cases span with
    | none => cases h _ (List.mem_of_mem_tail (List.mem_of_mem_dropLast hinside))
    | some span =>
      obtain ⟨inner, hevents, hinner⟩ := h
      rw [hevents, List.cons_append, List.tail_cons, List.dropLast_concat] at hinside
      cases hinner _ hinside
  · cases hfailed

end IndexedStore
