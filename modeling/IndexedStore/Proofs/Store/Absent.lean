import IndexedStore.Proofs.Operation.Healthy
import IndexedStore.Proofs.Storage.Calls
import IndexedStore.Proofs.Store.Bounded

/-! # Deleting what is not there

A delete looks for the record of the id and for the list of its entries. Neither of them stands
there for an entity that is not live, with one exception: the list of the empty id has the key
of the membership marker of the id `idx`. Main statement: a delete of an entity that is not live
writes nothing, and it answers that there was no record unless it meets that marker.
-/
namespace IndexedStore

open Key (IsName)

namespace Task

variable {α : Type} {s : Engine}

/-- The task gives `r` after the calls `calls`, the latest first, and leaves the content. -/
structure Answers (t : Task α) (s : Engine) (r : Except Error α) (calls : List Call) : Prop where
  result : (t s).1 = r
  content : (t s).2.content = s.content
  calls : ∃ new, (t s).2.journal = new ++ s.journal ∧ new.filterMap Activity.call? = calls

theorem Answers.congr {t u : Task α} {r : Except Error α} {calls : List Call}
    (h : u.Answers s r calls) (htu : t s = u s) : t.Answers s r calls where
  result := by rw [htu, h.result]
  content := by rw [htu, h.content]
  calls := by
    rw [htu]
    exact h.calls

theorem Answers.spanned {kind : ExecKind} {keyspace : String} {rows : α → Nat} {body : Task α}
    {r : Except Error α} {calls : List Call}
    (h : body.Answers (s.log (.event (.started kind keyspace))) r calls) :
    (Task.spanned kind keyspace rows body).Answers s r calls where
  result := h.result
  content := h.content
  calls := calls_spanned (P := (· = calls)) h.calls

theorem get_run (hs : s.faults = Faults.none) (key : String) :
    get key s = (.ok (s.content.get? key), s.log (.call (.get key))) := by
  unfold get perform
  rw [hs]
  rfl

theorem load_run_of_none (hs : s.faults = Faults.none) {keyspace id : String}
    (h : s.content.get? (Key.record keyspace id) = none) :
    load keyspace id s = (.ok none, s.log (.call (.get (Key.record keyspace id)))) := by
  unfold load
  rw [bind_run_ok (get_run hs _), h]
  rfl

end Task

namespace BackRefs

variable {s : Engine} {m : KeyspaceModel} {id : String}

theorem owned_run_of_none (hs : s.faults = Faults.none)
    (h : s.content.get? (Key.backRefs m.name id) = none) :
    owned Batch.empty m id none s =
      (.ok BackRefs.empty, s.log (.call (.get (Key.backRefs m.name id)))) := by
  have hbytes : Batch.empty.readBytes (Key.backRefs m.name id) s = Task.get _ s := rfl
  have hread : (Batch.empty.read? (Key.backRefs m.name id) : Task (Option BackRefs)) s =
      (.ok none, s.log (.call (.get (Key.backRefs m.name id)))) := by
    unfold Batch.read?
    rw [Task.bind_run_ok (hbytes.trans (Task.get_run hs _)), h]
    rfl
  unfold owned
  rw [Task.bind_run_ok hread]
  rfl

theorem owned_run_of_error (hs : s.faults = Faults.none) {b : Bytes} {x : CodecError}
    (h : s.content.get? (Key.backRefs m.name id) = some b)
    (hx : (decode b : Except CodecError BackRefs) = .error x) (old : Option Entity) :
    owned Batch.empty m id old s =
      (.error (.corruption (Key.backRefs m.name id) (.undecodable x)),
        s.log (.call (.get (Key.backRefs m.name id)))) := by
  have hbytes : Batch.empty.readBytes (Key.backRefs m.name id) s = Task.get _ s := rfl
  have hread : (Batch.empty.read? (Key.backRefs m.name id) : Task (Option BackRefs)) s =
      (.error (.corruption (Key.backRefs m.name id) (.undecodable x)),
        s.log (.call (.get (Key.backRefs m.name id)))) := by
    unfold Batch.read?
    rw [Task.bind_run_ok (hbytes.trans (Task.get_run hs _)), h]
    show (some <$> Task.decodeAt _ b : Task (Option BackRefs)) _ = _
    exact Task.bind_run_error (by rw [Task.decodeAt, hx]; rfl)
  unfold owned
  rw [Task.bind_run_error hread]

end BackRefs

namespace Database

variable {db : Database} {m : KeyspaceModel} {id : String} {s : Engine}

theorem answers_deleteUnder_of_none (hs : s.faults = Faults.none)
    (hr : s.content.get? (Key.record m.name id) = none)
    (hb : s.content.get? (Key.backRefs m.name id) = none) :
    (db.deleteUnder m id).Answers s (.ok false)
      [.get (Key.backRefs m.name id), .get (Key.record m.name id)] := by
  have howned := BackRefs.owned_run_of_none (s := s.log (.call (.get (Key.record m.name id)))) hs hb
  unfold deleteUnder
  refine ⟨?_, ?_, [.note db.verbose (.deletedAbsent m.name id),
    .call (.get (Key.backRefs m.name id)), .call (.get (Key.record m.name id))], ?_, rfl⟩ <;>
    rw [Task.bind_run_ok (Task.load_run_of_none hs hr), Task.bind_run_ok howned] <;> rfl

theorem answers_deleteUnder_of_error (hs : s.faults = Faults.none)
    (hr : s.content.get? (Key.record m.name id) = none) {b : Bytes} {x : CodecError}
    (hb : s.content.get? (Key.backRefs m.name id) = some b)
    (hx : (decode b : Except CodecError BackRefs) = .error x) :
    (db.deleteUnder m id).Answers s
      (.error (.corruption (Key.backRefs m.name id) (.undecodable x)))
      [.get (Key.backRefs m.name id), .get (Key.record m.name id)] := by
  have howned := BackRefs.owned_run_of_error (s := s.log (.call (.get (Key.record m.name id))))
    hs hb hx none
  unfold deleteUnder
  refine ⟨?_, ?_, [.call (.get (Key.backRefs m.name id)), .call (.get (Key.record m.name id))],
    ?_, rfl⟩ <;>
    rw [Task.bind_run_ok (Task.load_run_of_none hs hr), Task.bind_run_error howned] <;> rfl

theorem deleteById_answers {keyspace : String} (hm : db.schema.model keyspace = .ok m)
    {r : Except Error Bool} {calls : List Call}
    (h : ∀ s' : Engine, s'.faults = s.faults → s'.content = s.content →
      (db.deleteUnder m id).Answers s' r calls) :
    (db.deleteById keyspace id).Answers s r calls := by
  have hrun : db.deleteById keyspace id s = Task.spanned .delete m.name
      (fun removed => if removed then 1 else 0) (db.deleteUnder m id) s := by
    unfold deleteById
    rw [Task.bind_run_ok (model_run hm s)]
  exact (h (s.log _) rfl rfl).spanned.congr hrun

end Database

/-- After every history, whatever schemas it went through and whichever calls failed in it, take
an entity of a declared keyspace that is not live, on a healthy backing store. A delete makes
two reads and no write, leaves the content, and answers that there was no record; but for the
empty id it takes the marker of the live id `idx` for its list of entries and fails. -/
theorem deleteById_of_not_live (faults : Faults) (supply : IdSupply) (journal : Journal)
    (history : List (Database × Op)) :
    let t := (Tracked.fresh faults supply journal).replay history
    ∀ (db : Database) (keyspace : String) (m : KeyspaceModel) (id : String) (s : Engine),
      s.content = t.engine.content → s.faults = Faults.none →
      db.schema.model keyspace = .ok m → t.entities.get? keyspace id = none →
      (db.deleteById keyspace id).Answers s
        (if id = "" ∧ (t.entities.get? keyspace "idx").isSome = true then
          .error (.corruption (Key.backRefs keyspace "") (.undecodable .malformed))
        else .ok false)
        [.get (Key.backRefs keyspace id), .get (Key.record keyspace id)] := by
  intro t db keyspace m id s hcontent hs hm hd
  obtain ⟨hc, -⟩ := Tracked.stands_replay faults supply journal history hcontent
  obtain rfl := Schema.name_of_model hm
  have hk := Schema.isName_of_model hm
  have hrecord : s.content.get? (Key.record m.name id) = none := by
    rw [hc.get?_record hk, hd]
    rfl
  have hlist := hc.get?_backRefs_of_none hk hd
  refine Database.deleteById_answers hm fun s' hs' hcontent' => ?_
  rw [← hs'] at hs
  rw [← hcontent'] at hrecord hlist
  split
  · rename_i hidx
    rw [if_pos hidx] at hlist
    have hfail : (db.deleteUnder m id).Answers s' _ _ :=
      Database.answers_deleteUnder_of_error hs hrecord hlist (x := .malformed) rfl
    rwa [hidx.1] at hfail ⊢
  · rename_i hidx
    rw [if_neg hidx] at hlist
    exact Database.answers_deleteUnder_of_none hs hrecord hlist

/-- Once the id `idx` is live a delete of the empty id fails, where it answered before that
there was no record. -/
theorem deleteById_meets_marker :
    let db : Database := .indexing [] rfl
    let e : OrderedEntity := ⟨⟨"k", some "idx", []⟩, List.Pairwise.nil, trivial⟩
    let t := (Tracked.fresh Faults.none .none []).replay [(db, .save e)]
    let s := Engine.holding t.engine.content
    t.entities.get? "k" "" = none ∧ (db.deleteById "k" "" Engine.empty).1 = .ok false ∧
      (db.deleteById "k" "" s).1 =
        .error (.corruption "k::idx" (.undecodable .malformed)) := by
  intro db e t s
  have hdead : t.entities.get? "k" "" = none := by decide +kernel
  have hidx : (t.entities.get? "k" "idx").isSome = true := by decide +kernel
  have hanswer := fun history s => deleteById_of_not_live Faults.none .none [] history db "k"
    ⟨"k", [], [], []⟩ "" s
  refine ⟨hdead, (hanswer [] Engine.empty rfl rfl rfl rfl).result, ?_⟩
  have hfail := (hanswer [(db, .save e)] s rfl rfl rfl hdead).result
  rwa [if_pos ⟨rfl, hidx⟩] at hfail

end IndexedStore
