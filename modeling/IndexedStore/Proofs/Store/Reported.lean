import IndexedStore.Observe.Report
import IndexedStore.Proofs.Operation.Counted
import IndexedStore.Proofs.Operation.Healthy
import IndexedStore.Proofs.Operation.Progress
import IndexedStore.Proofs.Storage.Trace
import IndexedStore.Proofs.Store.Bounded

/-! # What is reported of index entries

A save or a delete reports the index entries that it changes before it commits them. The report
is right about every batch that is made, but it is not taken back when the record turns out to be
too long or the batch fails. Main statement: over every content that operations lead to and
whichever calls fail, these are the only failures with a report.
-/
namespace IndexedStore

open IndexedStore.Task (Does)
open Key (IsName)

def Event.isDelta : Event → Bool
  | .indexed _ _ _ => true
  | _ => false

/-- The result of a write of the keyspace, its calls in order and its index events. A write that
succeeds without a batch has a result that satisfies `idle`. -/
inductive Reports {α : Type} (keyspace : String) (idle : α → Prop) :
    Except Error α → List Call → List Event → Prop where
  | unstaged {r : Except Error α} {calls : List Call} (reads : ReadsOnly calls)
      (result : ∀ a, r = .ok a → idle a) : Reports keyspace idle r calls []
  | tooLong {n : Nat} {calls : List Call} {i d : UInt64} (reads : ReadsOnly calls) :
      Reports keyspace idle (.error (.codec (.oversized n))) calls [.indexed keyspace i d]
  | refused {x : BackendError} {calls : List Call} {writes : List Write} {i d : Nat}
      (reads : ReadsOnly calls) (inserts : Counts (Write.Puts keyspace writes) i)
      (removes : Counts (Write.Removes keyspace writes) d) :
      Reports keyspace idle (.error (.storeUnavailable x)) (calls ++ [.batch writes])
        [.indexed keyspace (UInt64.ofNat i) (UInt64.ofNat d)]
  | committed {a : α} {calls : List Call} {writes : List Write} {i d : Nat}
      (reads : ReadsOnly calls) (inserts : Counts (Write.Puts keyspace writes) i)
      (removes : Counts (Write.Removes keyspace writes) d) :
      Reports keyspace idle (.ok a) (calls ++ [.batch writes])
        [.indexed keyspace (UInt64.ofNat i) (UInt64.ofNat d)]

/-- The result, the calls and the index events of a run from `s` are listed there. -/
def Task.Reported {α : Type} (t : Task α) (keyspace : String) (idle : α → Prop) (s : Engine) :
    Prop :=
  ∃ calls events, s.Made (t s).2 calls ∧ s.Told (t s).2 events ∧
    Reports keyspace idle (t s).1 calls (events.filter Event.isDelta)

def Report.indexCounters (r : Report) : UInt64 × UInt64 := (r.indexInserts, r.indexRemoves)

theorem Report.indexCounters_add (r : Report) {e : Event} (h : e.isDelta = false) :
    (r.add e).indexCounters = r.indexCounters := by
  cases e with
  | indexed keyspace i d => cases h
  | started kind keyspace => rfl
  | finished kind keyspace rows => rfl
  | lookedUp kind keyspace hits => cases kind <;> rfl
  | missed keyspace field => rfl

theorem Report.indexCounters_foldl (events : List Event) {r r' : Report}
    (h : r.indexCounters = r'.indexCounters) : (events.foldl add r).indexCounters =
      ((events.filter Event.isDelta).foldl add r').indexCounters := by
  induction events generalizing r r' with
  | nil => exact h
  | cons e events ih =>
    cases hd : e.isDelta with
    | false =>
      rw [List.filter_cons_of_neg (by simp [hd])]
      exact ih ((r.indexCounters_add hd).trans h)
    | true =>
      rw [List.filter_cons_of_pos hd]
      refine ih ?_
      cases e with
      | indexed keyspace i d =>
        obtain ⟨hi, hr⟩ := Prod.mk.inj h
        simp only [Report.indexCounters, Report.add, hi, hr]
      | _ => cases hd

theorem Progress.reports {α : Type} {keyspace : String} {idle : α → Prop}
    {staged : IndexPlan → Batch → Prop} {r : Except Error α} {acts : List Activity}
    (h : Progress keyspace idle staged r acts)
    (hcounted : ∀ p b, staged p b → p.Counted keyspace b) :
    Reports keyspace idle r (acts.filterMap Activity.call?)
      ((acts.filterMap Activity.event?).filter Event.isDelta) := by
  cases h with
  | unstaged hreads hr =>
    rw [Activity.events_of_reads hreads]
    exact .unstaged (Activity.calls_of_reads hreads) hr
  | tooLong hreads =>
    rw [List.filterMap_append, List.filterMap_append, Activity.events_of_reads hreads,
      List.filterMap_cons_none (by rfl), List.filterMap_nil, List.append_nil]
    exact .tooLong (Activity.calls_of_reads hreads)
  | refused hreads hb =>
    rw [List.filterMap_append, List.filterMap_append, Activity.events_of_reads hreads]
    have hcounted := hcounted _ _ hb
    exact .refused (Activity.calls_of_reads hreads) hcounted.inserts hcounted.removes
  | committed hreads hb =>
    rw [List.filterMap_append, List.filterMap_append, Activity.events_of_reads hreads]
    have hcounted := hcounted _ _ hb
    exact .committed (Activity.calls_of_reads hreads) hcounted.inserts hcounted.removes

namespace Database

variable {db : Database} {m : KeyspaceModel} {c : Content} {d : Entities} {p : IndexPlan}
  {b : Batch}

theorem SaveStages.counted (h : SaveStages m c p b) (hc : Consistent c d) (hk : IsName m.name) :
    p.Counted m.name b := by
  cases h with
  | intro id_ne loads owns derives staged =>
    refine IndexPlan.counted_ofEntries hk derives (hc.owns hk id_ne loads owns).own
      fun k hi => ?_
    rw [staged, IndexPlan.saved, if_neg, if_neg]
    · exact (hi.ne_key hk .record (Nat.le_succ 1)).symm
    · exact (hi.ne_key hk .member (Nat.le_refl 2)).symm

theorem DeleteStages.counted {id : String} (h : DeleteStages m id c p b) (hc : Consistent c d)
    (hk : IsName m.name) : p.Counted m.name b := by
  cases h with
  | intro loads owns stored staged =>
    have hid : id ≠ "" := by
      rintro rfl
      obtain ⟨rfl, rfl, -⟩ := hc.owned_of_empty_id hk loads owns
      exact stored ⟨rfl, rfl⟩
    refine IndexPlan.counted_forDelete hk (hc.owns hk hid loads owns).own fun k hi => ?_
    have hmember : k ≠ Key.member m.name id := hi.ne_key hk .member (Nat.le_refl 2)
    have hrecord : k ≠ Key.record m.name id := hi.ne_key hk .record (Nat.le_succ 1)
    rw [staged, if_neg (by simp [hmember, hrecord])]

/-- The span around a write and the look-up of its keyspace add nothing to the report. -/
theorem reported_of_progress {α : Type} {keyspace : String} {kind : ExecKind} {rows : α → Nat}
    {body : KeyspaceModel → Task α} {s : Engine} {idle : α → Prop}
    {staged : KeyspaceModel → IndexPlan → Batch → Prop}
    (hbody : ∀ m, Does (body m) s.content fun r _ acts => Progress m.name idle (staged m) r acts)
    (hcounted : ∀ m p b, IsName m.name → staged m p b → p.Counted m.name b) :
    Task.Reported (db.model keyspace >>= fun m => Task.spanned kind m.name rows (body m))
      keyspace idle s := by
  cases hm : db.schema.model keyspace with
  | error x =>
    have hrun : db.model keyspace s = (.error x, s) := by
      rw [← hm]
      rfl
    rw [Task.Reported, Task.bind_run_error hrun]
    exact ⟨[], [], .refl s, .refl s, .unstaged ReadsOnly.nil fun _ h => by cases h⟩
  | ok m =>
    have hspan : Does (Task.spanned kind m.name rows (body m)) s.content _ := (hbody m).spanned
    obtain ⟨acts, hdid, inner, rfl, hprogress⟩ := hspan s rfl
    have hreports := hprogress.reports (hcounted m · · (Schema.isName_of_model hm))
    rw [Task.Reported, Task.bind_run_ok (model_run hm s)]
    obtain rfl := Schema.name_of_model hm
    refine ⟨_, _, hdid.made, ⟨_, hdid, rfl⟩, ?_⟩
    rw [Activity.calls_of_span, Activity.events_of_span, List.filter_append,
      List.filter_cons_of_neg Bool.false_ne_true, List.filter_cons_of_neg Bool.false_ne_true,
      List.filter_nil, List.append_nil]
    exact hreports

end Database

/-- After every history, whatever schemas it went through and whichever calls failed in it, take
a save or a delete of one entity under any schema, whichever of its calls fail. It makes at most
one batch, as its last call, and it succeeds without one only as a delete that finds nothing.
With a batch comes one index event, which tells how many index keys the batch puts and how many it
deletes, whether or not the batch fails. Without a batch there is no such event, but for a save
whose record turns out to be too long. The index counters of a recorder change with these events
only. -/
theorem index_deltas_reported (faults : Faults) (supply : IdSupply) (journal : Journal)
    (history : List (Database × Op)) :
    let t := (Tracked.fresh faults supply journal).replay history
    (∀ (db : Database) (s : Engine), s.content = t.engine.content →
      (∀ e : Entity, (db.save e).Reported e.keyspace (fun _ => False) s) ∧
      ∀ keyspace id, (db.deleteById keyspace id).Reported keyspace (· = false) s) ∧
    ∀ (report : Report) (events : List Event), (events.foldl Report.add report).indexCounters =
      ((events.filter Event.isDelta).foldl Report.add report).indexCounters := by
  intro t
  refine ⟨fun db s hs => ?_, fun report events => Report.indexCounters_foldl events rfl⟩
  have hc : Consistent s.content t.entities := by
    rw [hs]
    exact Tracked.consistent_replay faults supply journal history
  exact ⟨fun e => Database.reported_of_progress (fun m => db.does_saveUnder m e s.content)
      fun m p b hk h => h.counted hc hk,
    fun keyspace id => Database.reported_of_progress (fun m => db.does_deleteUnder m id s.content)
      fun m p b hk h => h.counted hc hk⟩

/-- A batch that fails has been reported: one key inserted, though nothing is stored. -/
theorem refused_batch_reported :
    let db : Database := .indexing ["f"] rfl
    let s : Engine := ⟨Dict.empty, Faults.after [.batch] 0 0 (.io "x"), .none, []⟩
    ∃ x s' calls writes i, db.save OrderedEntity.sample.val s =
        (.error (.storeUnavailable x), s') ∧ s'.content = Dict.empty ∧
      s.Made s' (calls ++ [.batch writes]) ∧ Counts (Write.Puts "k" writes) i ∧
      UInt64.ofNat i = 1 ∧
      s.Told s' [.started .save "k", .indexed "k" 1 0, .finished .save "k" 0] := by
  intro db s
  obtain ⟨calls, events, hmade, htold, hreports⟩ :=
    ((index_deltas_reported Faults.none .none [] []).1 db s rfl).1 OrderedEntity.sample.val
  have hcontent : (db.save OrderedEntity.sample.val s).2.content = Dict.empty := by decide +kernel
  have hfailed : (db.save OrderedEntity.sample.val s).1.toOption = none := by decide +kernel
  have hevents : (db.save OrderedEntity.sample.val s).2.journal.reverse.filterMap Activity.event? =
      [.started .save "k", .indexed "k" 1 0, .finished .save "k" 0] := by decide +kernel
  have hcalls : ((db.save OrderedEntity.sample.val s).2.journal.reverse.filterMap
      Activity.call?).any (·.kind.mutates) = true := by decide +kernel
  rcases hrun : db.save OrderedEntity.sample.val s with ⟨r, s'⟩
  rw [hrun] at hmade htold hreports hcontent hfailed hevents hcalls
  have hdid : s.Did s' s'.journal.reverse := Engine.Did.of_fresh rfl
  obtain rfl := hmade.unique hdid.made
  obtain rfl := htold.unique ⟨_, hdid, hevents⟩
  have hdelta : Reports "k" (fun _ => False) r _ [.indexed "k" 1 0] := hreports
  generalize s'.journal.reverse.filterMap Activity.call? = calls at hmade hdelta hcalls
  generalize hd : [Event.indexed "k" 1 0] = deltas at hdelta
  obtain ⟨c, hc, hmutates⟩ := List.any_eq_true.mp hcalls
  cases hdelta with
  | unstaged reads _ => cases hd
  | tooLong reads => cases hmutates.symm.trans (reads c hc)
  | committed reads inserts removes => cases hfailed
  | @refused x calls writes i _ reads inserts removes =>
    injection hd with hd _
    injection hd with _ hi _
    exact ⟨x, s', calls, writes, i, rfl, hcontent, hmade, inserts, hi.symm, htold⟩

end IndexedStore
