import IndexedStore.Proofs.Operation.Atomic
import IndexedStore.Proofs.Storage.Depends
import IndexedStore.Proofs.Store.History

/-! # Writes keep to their entity

A save or a delete of an entity reads and writes keys in the slots of that entity alone. The
entries that it removes are read from a stored list, which under every history lists slots of
its own entity only. Main statement: two writes of different entities may trade places.
-/
namespace IndexedStore

open Key (Slot IsName)
open IndexedStore.Task (DependsOn)

variable {P : String → Prop}

namespace Database

theorem dependsOn_stageSave (m : KeyspaceModel) (owned : BackRefs) (e : Entity) (id : String) :
    DependsOn P (stageSave m owned e id) :=
  (DependsOn.ofExcept _).bind fun p => (p.dependsOn_stage _ _ _).bind fun b =>
    (b.dependsOn_store _ _).bind fun _ => DependsOn.pure _

theorem dependsOn_saveUnder (db : Database) {m : KeyspaceModel} {e : Entity} {id : String}
    (hid : e.id = some id) (hne : id ≠ "") (hr : P (Key.record m.name id))
    (hb : P (Key.backRefs m.name id)) : DependsOn P (db.saveUnder m e) := by
  unfold saveUnder
  refine DependsOn.ofExcept_bind fun n hn => ?_
  have hnid : n.id = some id := (KeyspaceModel.normalize_eq_ok hn).2.1.trans hid
  have hchoose : chooseId m n = Task.ofExcept (.ok id) := funext (chooseId_some hnid hne)
  cases n.invalidPoint? with
  | some p => exact DependsOn.ofExcept (.error (.invalidCoordinate p))
  | none =>
    dsimp only
    rw [hchoose]
    refine DependsOn.ofExcept_bind fun i hi => ?_
    cases hi
    refine (DependsOn.load hr).bind fun old => ?_
    refine (BackRefs.dependsOn_owned hb old).bind fun owned => ?_
    refine (dependsOn_stageSave _ _ _ _).bind fun pb => ?_
    refine (DependsOn.commit _).bind fun writes => ?_
    exact (DependsOn.note _ _).bind fun _ => DependsOn.pure id

theorem dependsOn_deleteUnder (db : Database) {m : KeyspaceModel} {id : String}
    (hr : P (Key.record m.name id)) (hb : P (Key.backRefs m.name id)) :
    DependsOn P (db.deleteUnder m id) := by
  unfold deleteUnder
  refine (DependsOn.load hr).bind fun old => ?_
  refine (BackRefs.dependsOn_owned hb old).bind fun owned => ?_
  cases old.isNone && owned.isEmpty with
  | true => exact (DependsOn.note _ _).bind fun _ => DependsOn.pure false
  | false =>
    refine (IndexPlan.dependsOn_stage _ _ _ _).bind fun b => ?_
    refine ((DependsOn.commit _).bind fun _ => DependsOn.pure _).bind fun _ => ?_
    exact (DependsOn.note _ _).bind fun _ => DependsOn.pure _

theorem dependsOn_save (db : Database) {e : Entity} {id : String} (hid : e.id = some id)
    (hne : id ≠ "") (hp : Key.IsName e.keyspace → P (Key.record e.keyspace id) ∧
      P (Key.backRefs e.keyspace id)) : DependsOn P (db.save e) := by
  refine DependsOn.ofExcept_bind fun m hm => DependsOn.spanned ?_
  obtain ⟨hr, hb⟩ := hp (Schema.name_of_model hm ▸ Schema.isName_of_model hm)
  rw [← Schema.name_of_model hm] at hr hb
  exact db.dependsOn_saveUnder hid hne hr hb

theorem dependsOn_deleteById (db : Database) {keyspace id : String}
    (hp : Key.IsName keyspace → P (Key.record keyspace id) ∧ P (Key.backRefs keyspace id)) :
    DependsOn P (db.deleteById keyspace id) := by
  refine DependsOn.ofExcept_bind fun m hm => DependsOn.spanned ?_
  obtain ⟨hr, hb⟩ := hp (Schema.name_of_model hm ▸ Schema.isName_of_model hm)
  rw [← Schema.name_of_model hm] at hr hb
  exact db.dependsOn_deleteUnder hr hb

end Database

/-- The key stands in a slot of the entity. -/
def Key.Belongs (keyspace id k : String) : Prop :=
  IsName keyspace ∧ ∃ slot : Slot, k = slot.key keyspace id

theorem Key.Belongs.entity {keyspace keyspace' id id' k : String} (hid : id ≠ "")
    (hid' : id' ≠ "") (h : Key.Belongs keyspace id k) (h' : Key.Belongs keyspace' id' k) :
    (keyspace, id) = (keyspace', id') := by
  obtain ⟨hk, slot, rfl⟩ := h
  obtain ⟨hk', slot', he⟩ := h'
  obtain ⟨rfl, rfl, -⟩ := Slot.key_inj hk hk' hid hid' he
  rfl

namespace Task

variable {α β : Type}

/-- Over a content that stands for some entities the task reads and writes keys in `P` alone,
and what it leaves stands for some entities again. -/
structure Confined (P : String → Prop) (t : Task α) : Prop where
  depends : DependsOn P t
  frame : ∀ (s : Engine) d, Consistent s.content d → ∀ k, ¬P k →
    (t s).2.content.get? k = s.content.get? k
  consistent : ∀ (s : Engine) d, Consistent s.content d → ∃ d', Consistent (t s).2.content d'
  faults : ∀ s, (t s).2.faults = s.faults

namespace Confined

variable {Q : String → Prop} {t : Task α} {u : Task β} {s : Engine} {d : Entities}

theorem map (ht : Confined P t) (f : α → β) :
    Confined P (do return f (← t)) := by
  have hrun : ∀ s, (do return f (← t) : Task β) s = ((t s).1.map f, (t s).2) := by
    intro s
    rcases h : t s with ⟨x | a, s₁⟩
    · exact bind_run_error h
    · exact bind_run_ok h
  refine ⟨ht.depends.bind fun a => DependsOn.pure _, ?_, ?_, ?_⟩
  · intro s d hc k hk
    rw [hrun]
    exact ht.frame s d hc k hk
  · intro s d hc
    rw [hrun]
    exact ht.consistent s d hc
  · intro s
    rw [hrun]
    exact ht.faults s

theorem alike (ht : Confined P t) (hd : ∀ k, P k → ¬Q k) (hc : Consistent s.content d)
    (hs : s.faults.Steady) : s.Alike Q (t s).2 where
  content k hk := ht.frame s d hc k fun hp => hd k hp hk
  faults j j' c := by rw [ht.faults, hs j]

/-- A task that looks at other keys gives the same result before and after, and makes the same
of every key that is left to it. -/
theorem after (ht : Confined P t) (hu : Confined Q u) (hd : ∀ k, P k → ¬Q k)
    (hc : Consistent s.content d) (hs : s.faults.Steady) :
    (u (t s).2).1 = (u s).1 ∧ ∀ k, ¬P k →
      (u (t s).2).2.content.get? k = (u s).2.content.get? k := by
  obtain ⟨hr, ha⟩ := hu.depends s (t s).2 (ht.alike hd hc hs)
  refine ⟨hr, fun k hk => ?_⟩
  by_cases hq : Q k
  · exact ha.content k hq
  · obtain ⟨d', hc'⟩ := ht.consistent s d hc
    rw [hu.frame _ d' hc' k hq, hu.frame s d hc k hq, ht.frame s d hc k hk]

theorem commute (ht : Confined P t) (hu : Confined Q u) (hd : ∀ k, P k → ¬Q k)
    (hc : Consistent s.content d) (hs : s.faults.Steady) :
    (u (t s).2).1 = (u s).1 ∧ (t (u s).2).1 = (t s).1 ∧
      (u (t s).2).2.content = (t (u s).2).2.content := by
  have hd' : ∀ k, Q k → ¬P k := fun k hq hp => hd k hp hq
  obtain ⟨hur, hukeys⟩ := ht.after hu hd hc hs
  obtain ⟨htr, htkeys⟩ := hu.after ht hd' hc hs
  refine ⟨hur, htr, Dict.ext_get? fun k => ?_⟩
  by_cases hp : P k
  · obtain ⟨d', hc'⟩ := ht.consistent s d hc
    rw [hu.frame _ d' hc' k (hd k hp), htkeys k (hd k hp)]
  · obtain ⟨d', hc'⟩ := hu.consistent s d hc
    rw [hukeys k hp, ht.frame _ d' hc' k hp]

end Confined

end Task

theorem Tracked.engine_run {α : Type} (t : Tracked) (task : Task α)
    (effect : α → Entities → Entities) : (t.run task effect).2.engine = (task t.engine).2 := by
  unfold run
  rcases task t.engine with ⟨_ | _, _⟩ <;> rfl

namespace Consistent

variable {db : Database} {s s' : Engine} {d : Entities} {k : String}

theorem save_other (h : Consistent s.content d) {e : Entity} {id : String}
    (hrun : db.save e s = (.ok id, s')) (hk : ¬Key.Belongs e.keyspace id k) :
    s'.content.get? k = s.content.get? k := by
  obtain ⟨m, n, owned, hm, hsaved⟩ := Database.save_eq_ok hrun
  have hname := Schema.isName_of_model hm
  obtain ⟨old, hl, ho⟩ := hsaved.owns
  have howns := h.owns hname hsaved.id_ne hl ho
  rw [← Schema.name_of_model hm] at hk
  exact hsaved.get?_other howns.own fun slot he => hk ⟨hname, slot, he⟩

theorem delete_other (h : Consistent s.content d) {keyspace id : String} {removed : Bool}
    (hid : id ≠ "") (hrun : db.deleteById keyspace id s = (.ok removed, s'))
    (hk : ¬Key.Belongs keyspace id k) : s'.content.get? k = s.content.get? k := by
  obtain ⟨m, old, owned, hm, -, hdeleted⟩ := Database.deleteById_eq_ok hrun
  have hname := Schema.isName_of_model hm
  have howns := h.owns hname hid hdeleted.loads hdeleted.owns
  rw [← Schema.name_of_model hm] at hk
  exact hdeleted.get?_other howns.own fun slot he => hk ⟨hname, slot, he⟩

end Consistent

namespace Database

open IndexedStore.Task (Confined)

theorem confined_save (db : Database) (e : OrderedEntity) {id : String} (hid : e.val.id = some id)
    (hne : id ≠ "") : Confined (Key.Belongs e.val.keyspace id) (db.save e.val) where
  depends := db.dependsOn_save hid hne fun hk => ⟨⟨hk, .record, rfl⟩, hk, .backRefs, rfl⟩
  frame s d hc k hk := by
    rcases hrun : db.save e.val s with ⟨x | i, s'⟩
    · exact congrArg (·.get? k) (db.failSafe_save e.val s x s' hrun)
    · obtain ⟨m, n, owned, -, hsaved⟩ := save_eq_ok hrun
      cases hsaved.id_eq id hid
      exact hc.save_other hrun hk
  consistent s d hc := by
    have h : (Tracked.mk s d).Sat Consistent := hc
    have hs := h.save (kept_consistent db.schema) e
    rw [Tracked.Sat, Tracked.save, Tracked.engine_run] at hs
    exact ⟨_, hs⟩
  faults := (db.allOrNothing_save e.val).calls.faults

theorem confined_deleteById (db : Database) (keyspace : String) {id : String} (hne : id ≠ "") :
    Confined (Key.Belongs keyspace id) (db.deleteById keyspace id) where
  depends := db.dependsOn_deleteById fun hk => ⟨⟨hk, .record, rfl⟩, hk, .backRefs, rfl⟩
  frame s d hc k hk := by
    rcases hrun : db.deleteById keyspace id s with ⟨x | removed, s'⟩
    · exact congrArg (·.get? k) (db.failSafe_deleteById keyspace id s x s' hrun)
    · exact hc.delete_other hne hrun hk
  consistent s d hc := by
    have h : (Tracked.mk s d).Sat Consistent := hc
    have hs := h.apply (kept_consistent db.schema) (.deleteById keyspace id)
    rw [Tracked.Sat, Tracked.apply, Tracked.engine_run] at hs
    exact ⟨_, hs⟩
  faults := (db.allOrNothing_deleteById keyspace id).calls.faults

end Database

/-- A save or a delete of the entity of an id. -/
structure Change where
  keyspace : String
  id : String
  id_ne : id ≠ ""
  /-- The fields to save; without them the entity is deleted. -/
  fields : Option {f : Fields // f.Ordered}

namespace Change

def run (db : Database) (w : Change) : Task (String ⊕ Bool) :=
  match w.fields with
  | some f => do return .inl (← db.save ⟨w.keyspace, some w.id, f.val⟩)
  | none => do return .inr (← db.deleteById w.keyspace w.id)

theorem dependsOn_run (db : Database) (w : Change) (hr : P (Key.record w.keyspace w.id))
    (hb : P (Key.backRefs w.keyspace w.id)) : DependsOn P (w.run db) := by
  unfold run
  cases w.fields with
  | some f =>
    have hsave : DependsOn P (db.save ⟨w.keyspace, some w.id, f.val⟩) :=
      db.dependsOn_save rfl w.id_ne fun _ => ⟨hr, hb⟩
    exact hsave.bind fun _ => DependsOn.pure _
  | none =>
    have hdelete : DependsOn P (db.deleteById w.keyspace w.id) :=
      db.dependsOn_deleteById fun _ => ⟨hr, hb⟩
    exact hdelete.bind fun _ => DependsOn.pure _

theorem confined_run (db : Database) (w : Change) :
    (w.run db).Confined (Key.Belongs w.keyspace w.id) := by
  unfold run
  cases w.fields with
  | some f => exact (db.confined_save ⟨⟨w.keyspace, some w.id, f.val⟩, f.property⟩ rfl w.id_ne).map _
  | none => exact (db.confined_deleteById w.keyspace w.id_ne).map _

end Change

/-- Let the store hold what a history left, whatever schemas it went through and whichever calls
failed in it. A save changes no key outside the slots of the entity whose id it gives, and a
change of an entity no key outside its slots. When failures do not depend on what happened
before, the result of a change depends on the record of its entity and on the list of its
entries alone, and what it makes of a key on the old value of that key alone. Changes of two
entities, each under a schema of its own, give the same results and the same content in either
order. -/
theorem changes_local_and_commute (faults : Faults) (supply : IdSupply) (journal : Journal)
    (history : List (Database × Op)) :
    let t := (Tracked.fresh faults supply journal).replay history
    ∀ s : Engine, s.content = t.engine.content →
      (∀ (db : Database) (e : Entity) (id : String) (s' : Engine), db.save e s = (.ok id, s') →
        ∀ k, (∀ slot : Slot, k ≠ slot.key e.keyspace id) →
          s'.content.get? k = s.content.get? k) ∧
      (∀ (db : Database) (w : Change) (k : String),
        (∀ slot : Slot, k ≠ slot.key w.keyspace w.id) →
          (w.run db s).2.content.get? k = s.content.get? k) ∧
      (s.faults.Steady → ∀ (db : Database) (w : Change) (s' : Engine), s'.faults = s.faults →
        (∀ slot ∈ [Slot.record, Slot.backRefs],
          s'.content.get? (slot.key w.keyspace w.id) =
            s.content.get? (slot.key w.keyspace w.id)) →
        (w.run db s').1 = (w.run db s).1 ∧
          ∀ k, s'.content.get? k = s.content.get? k →
            (w.run db s').2.content.get? k = (w.run db s).2.content.get? k) ∧
      (s.faults.Steady → ∀ (db db' : Database) (w w' : Change),
        (w.keyspace, w.id) ≠ (w'.keyspace, w'.id) →
          (w'.run db' (w.run db s).2).1 = (w'.run db' s).1 ∧
          (w.run db (w'.run db' s).2).1 = (w.run db s).1 ∧
          (w'.run db' (w.run db s).2).2.content = (w.run db (w'.run db' s).2).2.content) := by
  intro t s hs
  have hc : Consistent s.content t.entities := by
    rw [hs]
    exact Tracked.consistent_replay faults supply journal history
  refine ⟨?_, ?_, ?_, ?_⟩
  · intro db e id s' hrun k hk
    exact hc.save_other hrun fun ⟨_, slot, he⟩ => hk slot he
  · intro db w k hk
    exact (w.confined_run db).frame s _ hc k fun ⟨_, slot, he⟩ => hk slot he
  · intro hsteady db w s' hfaults hslots
    have halike : s.Alike (fun k => s'.content.get? k = s.content.get? k) s' :=
      ⟨fun _ hk => hk, fun j j' c => by rw [hfaults, hsteady j]⟩
    have hdepends := w.dependsOn_run db (P := fun k => s'.content.get? k = s.content.get? k)
      (hslots .record (by simp)) (hslots .backRefs (by simp))
    obtain ⟨hr, ha⟩ := hdepends s s' halike
    exact ⟨hr, ha.content⟩
  · intro hsteady db db' w w' hne
    refine (w.confined_run db).commute (w'.confined_run db') (fun k hk hk' => hne ?_) hc hsteady
    exact hk.entity w.id_ne w'.id_ne hk'

/-- The list of entries of the id `1` stands one escape away from the record of the id `1:idx`.
Saving the one and deleting the other still trade places. -/
theorem save_and_delete_commute :
    let t := (Tracked.fresh Faults.none .none []).replay
      [(.indexing ["f"] rfl, .save OrderedEntity.sample)]
    let s := Engine.holding t.engine.content
    let db : Database := .indexing ["f"] rfl
    let w : Change := ⟨"k", "1:idx", by decide, some ⟨_, OrderedEntity.sample.property⟩⟩
    let w' : Change := ⟨"k", "1", by decide, none⟩
    (w.run db (w'.run db s).2).1.toOption = some (.inl "1:idx") ∧
      (w'.run db (w.run db s).2).1.toOption = some (.inr true) ∧
      (w'.run db (w.run db s).2).2.content = (w.run db (w'.run db s).2).2.content ∧
      (w.run db s).2.content.get? (Key.backRefs "k" "1") =
        s.content.get? (Key.backRefs "k" "1") := by
  intro t s db w w'
  have hk : IsName "k" := by decide
  have hslot : ∀ slot slot' : Slot, slot.key "k" "1" ≠ slot'.key "k" "1:idx" := fun _ _ he =>
    absurd (Slot.key_inj hk hk (by decide) (by decide) he).2.1 (by decide)
  obtain ⟨-, hframe, hdepends, hcommute⟩ := changes_local_and_commute Faults.none .none []
    [(.indexing ["f"] rfl, .save OrderedEntity.sample)] s rfl
  obtain ⟨-, hw, hcontent⟩ := hcommute Faults.steady_none db db w w' (by decide)
  have hunchanged := fun slot => hframe db w (Slot.key "k" "1" slot) (hslot slot)
  have hfaults : (w.run db s).2.faults = s.faults := (w.confined_run db).faults s
  obtain ⟨hresult, -⟩ := hdepends Faults.steady_none db w' (w.run db s).2 hfaults
    fun slot _ => hunchanged slot
  refine ⟨?_, ?_, hcontent, hunchanged .backRefs⟩
  · rw [hw]
    decide +kernel
  · rw [hresult]
    decide +kernel

end IndexedStore
