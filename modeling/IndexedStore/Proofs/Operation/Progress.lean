import IndexedStore.Proofs.Operation.Atomic
import IndexedStore.Proofs.Storage.Activities

/-! # How far a write comes

A write reads, stages its changes and reports those of its index entries, and only then calls the
backing store with the batch. `Progress` lists where it may stop: before anything is staged, at a
record that is too long, at a batch that fails, or at the end.
-/
namespace IndexedStore

open IndexedStore.Task (Reading Does Logs)

namespace Task

variable {α : Type}

theorem logs_decodeAt [Storable α] (key : String) (b : Bytes) {p : Activity → Prop} :
    Logs p (decodeAt key b : Task α) := Logs.ofExcept _

theorem logs_load (keyspace id : String) : Logs Activity.Reads (load keyspace id) := by
  refine Logs.bind (Logs.perform rfl) fun o => ?_
  cases o with
  | none => exact Logs.pure _
  | some b => exact (logs_decodeAt _ _).bind fun _ => Logs.pure _

theorem logs_scanIds (start : String) : Logs Activity.Reads (scanIds start) :=
  Logs.bind (Logs.perform rfl) fun _ => Logs.pure _

end Task

theorem BackRefs.logs_owned (m : KeyspaceModel) (id : String) (old : Option Entity) :
    Logs Activity.Reads (owned Batch.empty m id old) := by
  refine Logs.bind (t := Batch.empty.read? (Key.backRefs m.name id)) ?_ fun o => ?_
  · refine Logs.bind (Logs.perform rfl) fun o => ?_
    cases o with
    | none => exact Logs.pure _
    | some b => exact (Task.logs_decodeAt _ b).bind fun _ => Logs.pure _
  · cases o with
    | some r => exact Logs.pure r
    | none =>
      cases old with
      | none => exact Logs.pure _
      | some e => exact Logs.ofExcept _

namespace Batch

variable {α : Type} [Storable α] {p : Activity → Prop}

theorem logs_store (b : Batch) (key : String) (a : α) : Logs p (b.store key a) :=
  (Logs.ofExcept _).bind fun _ => Logs.pure _

theorem logs_stores (l : List (String × α)) (b : Batch) :
    Logs p (l.foldlM (fun b g => b.store g.1 g.2) b : Task Batch) := by
  induction l generalizing b with
  | nil => exact Logs.pure b
  | cons g l ih => exact (logs_store b g.1 g.2).bind ih

theorem does_store (b : Batch) (key : String) (a : α) (c : Content) :
    Does (b.store key a) c fun r _ acts =>
      acts = [] ∧ ∀ x, r = .error x → ∃ n, x = .codec (.oversized n) := by
  have hencoded : Does (Task.encoded a) c fun r _ acts =>
      acts = [] ∧ ∀ x, r = .error x → ∃ n, x = .codec (.oversized n) := by
    refine Does.ofExcept ⟨rfl, fun x hx => ?_⟩
    unfold encode at hx
    dsimp only at hx
    split at hx
    · cases hx
      exact ⟨_, rfl⟩
    · cases hx
  refine hencoded.bind (fun x _ _ h => ⟨h.1, fun y hy => h.2 y ?_⟩) fun _ _ _ h => Does.pure ?_
  · cases hy
    rfl
  · exact ⟨by rw [h.1]; rfl, fun x hx => by cases hx⟩

/-- The batch was the one call, and the result is a failure only if it failed. -/
def Called {β : Type} (b : Batch) (r : Except Error β) (acts : List Activity) : Prop :=
  acts = [.call (.batch b.writes)] ∧ ((∃ a, r = .ok a) ∨ ∃ x, r = .error (.storeUnavailable x))

theorem Called.error {β γ : Type} {b : Batch} {x : Error} {acts : List Activity}
    (h : b.Called (.error x : Except Error β) acts) :
    b.Called (.error x : Except Error γ) acts := by
  obtain ⟨hacts, ⟨a, ha⟩ | ⟨y, hy⟩⟩ := h
  · cases ha
  · cases hy
    exact ⟨hacts, .inr ⟨y, rfl⟩⟩

theorem Called.discard {b : Batch} {t : Task Nat} {c : Content}
    (ht : Does t c fun r _ acts => b.Called r acts) :
    Does (discard t) c fun r _ acts => b.Called r acts := by
  refine ht.bind (f := fun _ => pure PUnit.unit) (fun _ _ _ h => h.error) fun _ _ _ h =>
    Does.pure ⟨?_, .inl ⟨_, rfl⟩⟩
  rw [h.1]
  rfl

theorem does_commit {b : Batch} (h : b.writes ≠ []) (c : Content) :
    Does b.commit c fun r _ acts => b.Called r acts := by
  have hne : b.writes.isEmpty = false := by simpa using h
  unfold commit
  rw [hne]
  have hcall : Does (Task.batch b.writes) c fun r _ acts => b.Called r acts :=
    Does.perform (fun x => ⟨rfl, .inr ⟨x, rfl⟩⟩) ⟨rfl, .inl ⟨(), rfl⟩⟩
  refine hcall.bind (fun _ _ _ h => h.error) fun _ _ _ h => Does.pure ⟨?_, .inl ⟨_, rfl⟩⟩
  rw [h.1]
  rfl

end Batch

namespace IndexPlan

def delta (p : IndexPlan) (keyspace : String) : Event :=
  .indexed keyspace (UInt64.ofNat p.inserts) (UInt64.ofNat p.removes)

/-- A plan is reported once it is staged. -/
theorem does_stage (p : IndexPlan) (b : Batch) (keyspace id : String) (c : Content) :
    Does (p.stage b keyspace id) c fun r _ acts =>
      (∃ b', r = .ok b' ∧ acts = [.event (p.delta keyspace)]) ∨ ∃ x, r = .error x ∧ acts = [] := by
  have hemit : ∀ (b' : Batch) (c : Content), Does (do
      Task.emit (p.delta keyspace)
      return b') c fun r _ acts => r = .ok b' ∧ acts = [.event (p.delta keyspace)] := by
    intro b' c
    refine (Does.emit (Q := fun r _ acts => r = .ok () ∧ acts = [.event (p.delta keyspace)])
      ⟨rfl, rfl⟩).bind (fun x _ _ h => ?_) fun _ _ _ h => Does.pure ⟨rfl, ?_⟩
    · cases h.1
    · rw [h.2]
      rfl
  refine (Does.silent (Batch.reading_stores _ _) (Batch.logs_stores _ _) c).bind
    (fun x _ _ h => .inr ⟨x, rfl, h.2.1⟩) fun b₁ c₁ _ h => ?_
  obtain ⟨-, rfl, -⟩ := h
  have hlast : ∀ {t : Task Batch}, Does t c₁ (fun _ _ acts => acts = []) →
      Does (do
        let b' ← t
        Task.emit (p.delta keyspace)
        return b') c₁ fun r _ acts =>
          (∃ b', r = .ok b' ∧ acts = [.event (p.delta keyspace)]) ∨
            ∃ x, r = .error x ∧ acts = [] := by
    intro t ht
    refine ht.bind (fun x _ _ h => .inr ⟨x, rfl, h⟩) fun b₂ c₂ _ h => ?_
    subst h
    exact (hemit b₂ c₂).mono fun _ _ _ h => .inl ⟨b₂, h⟩
  dsimp only
  split
  · exact hlast (Does.pure rfl)
  · exact hlast ((Does.silent (Batch.reading_store _ _ _) (Batch.logs_store _ _ _) c₁).mono
      fun _ _ _ h => h.2.1)

end IndexPlan

/-- What a write of the keyspace writes into the journal, with its result. The plan and the batch
that it stages satisfy `staged`; a result that satisfies `idle` may come without any. -/
inductive Progress {α : Type} (keyspace : String) (idle : α → Prop)
    (staged : IndexPlan → Batch → Prop) : Except Error α → List Activity → Prop where
  | unstaged {r : Except Error α} {reads : List Activity} (hreads : ∀ a ∈ reads, a.Reads)
      (hr : ∀ a, r = .ok a → idle a) : Progress keyspace idle staged r reads
  | tooLong {n : Nat} {reads : List Activity} {p : IndexPlan} (hreads : ∀ a ∈ reads, a.Reads) :
      Progress keyspace idle staged (.error (.codec (.oversized n)))
        (reads ++ [.event (p.delta keyspace)])
  | refused {x : BackendError} {reads : List Activity} {p : IndexPlan} {b : Batch}
      (hreads : ∀ a ∈ reads, a.Reads) (hb : staged p b) :
      Progress keyspace idle staged (.error (.storeUnavailable x))
        (reads ++ [.event (p.delta keyspace), .call (.batch b.writes)])
  | committed {a : α} {reads : List Activity} {p : IndexPlan} {b : Batch} {verbose : Bool}
      {n : Note} (hreads : ∀ a ∈ reads, a.Reads) (hb : staged p b) :
      Progress keyspace idle staged (.ok a)
        (reads ++ [.event (p.delta keyspace), .call (.batch b.writes), .note verbose n])

namespace Progress

variable {α β : Type} {keyspace : String} {idle : α → Prop} {staged : IndexPlan → Batch → Prop}

theorem failed {x : Error} {reads : List Activity} (h : ∀ a ∈ reads, a.Reads) :
    Progress keyspace idle staged (.error x) reads :=
  .unstaged h fun a ha => by cases ha

theorem prepend {r : Except Error α} {reads acts : List Activity}
    (h : Progress keyspace idle staged r acts) (hfirst : ∀ a ∈ reads, a.Reads) :
    Progress keyspace idle staged r (reads ++ acts) := by
  cases h with
  | unstaged hreads hr => exact .unstaged (List.forall_mem_append.mpr ⟨hfirst, hreads⟩) hr
  | tooLong hreads =>
    rw [← List.append_assoc]
    exact .tooLong (List.forall_mem_append.mpr ⟨hfirst, hreads⟩)
  | refused hreads hb =>
    rw [← List.append_assoc]
    exact .refused (List.forall_mem_append.mpr ⟨hfirst, hreads⟩) hb
  | committed hreads hb =>
    rw [← List.append_assoc]
    exact .committed (List.forall_mem_append.mpr ⟨hfirst, hreads⟩) hb

theorem after_reads {t : Task β} {f : β → Task α} {c : Content}
    {P : Except Error β → Content → List Activity → Prop} (ht : Does t c P)
    (hreads : ∀ r c' acts, P r c' acts → c' = c ∧ ∀ a ∈ acts, a.Reads)
    (hf : ∀ b acts, P (.ok b) c acts →
      Does (f b) c fun r _ acts => Progress keyspace idle staged r acts) :
    Does (t >>= f) c fun r _ acts => Progress keyspace idle staged r acts := by
  refine ht.bind (fun x c' acts h => .failed (hreads _ _ _ h).2) fun b c' acts h => ?_
  obtain ⟨rfl, hacts⟩ := hreads _ _ _ h
  exact (hf b acts h).mono fun _ _ _ hp => hp.prepend hacts

/-- What follows the batch never fails. -/
theorem of_called {t : Task β} {f : β → Task α} {c : Content} {p : IndexPlan} {b : Batch}
    (ht : Does t c fun r _ acts => b.Called r acts) (hb : staged p b)
    (hf : ∀ x c', Does (f x) c' fun r _ acts =>
      ∃ a verbose n, r = .ok a ∧ acts = [.note verbose n]) :
    Does (t >>= f) c fun r _ acts =>
      Progress keyspace idle staged r (.event (p.delta keyspace) :: acts) := by
  refine ht.bind (fun x _ _ h => ?_) fun x c' _ h => (hf x c').mono fun _ _ _ h' => ?_
  · obtain ⟨rfl, ⟨y, hy⟩ | ⟨y, hy⟩⟩ := h
    · cases hy
    · cases hy
      exact .refused (List.forall_mem_nil _) hb
  · obtain ⟨rfl, -⟩ := h
    obtain ⟨a, verbose, n, rfl, rfl⟩ := h'
    exact .committed (List.forall_mem_nil _) hb

end Progress

theorem Batch.writes_ne_nil {b : Batch} {k : String} (h : b.staged k ≠ none) : b.writes ≠ [] := by
  obtain ⟨v, hv⟩ := Option.ne_none_iff_exists'.mp h
  exact List.ne_nil_of_mem (Batch.staged_eq_some.mp hv)

namespace Database

variable {db : Database} {m : KeyspaceModel} {c : Content}

/-- The plan and the batch of a save over the content `c`. -/
inductive SaveStages (m : KeyspaceModel) (c : Content) : IndexPlan → Batch → Prop where
  | intro {n : Entity} {id : String} {old : Option Entity} {owned : BackRefs} {x : IndexEntries}
      {b : Batch} (id_ne : id ≠ "") (loads : (Task.load m.name id).on c = .ok old)
      (owns : (BackRefs.owned Batch.empty m id old).on c = .ok owned)
      (derives : IndexEntries.derive m (n.withId id) id = .ok x)
      (staged : ∀ k, b.staged k = (IndexPlan.ofEntries owned x).saved m.name id n.fields k) :
      SaveStages m c (IndexPlan.ofEntries owned x) b

inductive DeleteStages (m : KeyspaceModel) (id : String) (c : Content) :
    IndexPlan → Batch → Prop where
  | intro {old : Option Entity} {owned : BackRefs} {b : Batch}
      (loads : (Task.load m.name id).on c = .ok old)
      (owns : (BackRefs.owned Batch.empty m id old).on c = .ok owned)
      (stored : ¬(old = none ∧ owned.isEmpty = true))
      (staged : ∀ k, b.staged k =
        if k = Key.member m.name id ∨ k = Key.record m.name id then some none
        else (IndexPlan.forDelete owned).planned m.name id k) :
      DeleteStages m id c (IndexPlan.forDelete owned) b

theorem does_chooseId (m : KeyspaceModel) (e : Entity) (c : Content) :
    Does (chooseId m e) c fun r c' acts => (c' = c ∧ acts = []) ∧ ∀ id, r = .ok id → id ≠ "" := by
  rintro s rfl
  have hs := chooseId_state m e s
  refine ⟨[], by rw [hs]; exact .refl s, ⟨by rw [hs], rfl⟩, fun id hid => ?_⟩
  exact (chooseId_eq_ok (Prod.ext hid rfl : chooseId m e s = (.ok id, _))).2.1

theorem does_stageSave (m : KeyspaceModel) (owned : BackRefs) (e : Entity) (id : String)
    (c : Content) : Does (stageSave m owned e id) c fun r _ acts =>
      (∃ x, r = .error x ∧ acts = []) ∨
      (∃ n p, r = .error (.codec (.oversized n)) ∧ acts = [.event (IndexPlan.delta p m.name)]) ∨
      ∃ x b, IndexEntries.derive m e id = .ok x ∧ r = .ok (IndexPlan.ofEntries owned x, b) ∧
        acts = [.event ((IndexPlan.ofEntries owned x).delta m.name)] := by
  have hplan : Does (Task.ofExcept (IndexPlan.forSave m owned e id)) c fun r _ acts =>
      r = IndexPlan.forSave m owned e id ∧ acts = [] := Does.ofExcept ⟨rfl, rfl⟩
  refine hplan.bind (fun x _ _ h => .inl ⟨x, rfl, h.2⟩) fun p c₁ _ h => ?_
  obtain ⟨hp, rfl⟩ := h
  refine (p.does_stage Batch.empty m.name id c₁).bind (fun x _ _ h => ?_) fun b c₂ _ h => ?_
  · obtain ⟨b', hb', -⟩ | ⟨y, -, hacts⟩ := h
    · cases hb'
    · exact .inl ⟨x, rfl, hacts⟩
  obtain ⟨b', -, rfl⟩ | ⟨y, hy, -⟩ := h
  · refine (b.does_store _ _ c₂).bind (fun x _ _ h => ?_) fun b'' c₃ _ h => Does.pure ?_
    · obtain ⟨rfl, hx⟩ := h
      obtain ⟨n, rfl⟩ := hx x rfl
      exact .inr (.inl ⟨n, p, rfl, rfl⟩)
    · obtain ⟨rfl, -⟩ := h
      cases hd : IndexEntries.derive m e id with
      | error x =>
        rw [IndexPlan.forSave, hd] at hp
        cases hp
      | ok x =>
        rw [IndexPlan.forSave, hd] at hp
        cases hp
        exact .inr (.inr ⟨x, _, rfl, rfl, rfl⟩)
  · cases hy

theorem does_saveUnder (db : Database) (m : KeyspaceModel) (e : Entity) (c : Content) :
    Does (db.saveUnder m e) c fun r _ acts =>
      Progress m.name (fun _ => False) (SaveStages m c) r acts := by
  unfold saveUnder
  refine Progress.after_reads (P := fun _ c' acts => c' = c ∧ acts = []) (Does.ofExcept ⟨rfl, rfl⟩)
    (fun _ _ _ h => ⟨h.1, Activity.reads_of_nil h.2⟩) fun n _ _ => ?_
  cases n.invalidPoint? with
  | some p => exact Does.ofExcept (.failed (List.forall_mem_nil _))
  | none =>
    refine Progress.after_reads (does_chooseId m n c)
      (fun _ _ _ h => ⟨h.1.1, Activity.reads_of_nil h.1.2⟩) fun id _ hid => ?_
    refine Progress.after_reads ((Task.logs_load m.name id c).on (Task.reading_load _ _))
      (fun _ _ _ h => ⟨h.1, h.2.1⟩) fun old _ hold => ?_
    refine Progress.after_reads ((BackRefs.logs_owned m id old c).on (BackRefs.reading_owned _ _ _))
      (fun _ _ _ h => ⟨h.1, h.2.1⟩) fun owned _ howned => ?_
    refine ((does_stageSave m owned (n.withId id) id c).on (reading_stageSave _ _ _ _)).bind
      (fun x _ _ h => ?_) fun pb c₁ _ h => ?_
    · obtain ⟨-, ⟨y, -, rfl⟩ | ⟨k, p, hx, rfl⟩ | ⟨y, b, -, hx, -⟩, -⟩ := h
      · exact .failed (List.forall_mem_nil _)
      · cases hx
        exact .tooLong (List.forall_mem_nil _)
      · cases hx
    · obtain ⟨rfl, ⟨y, hy, -⟩ | ⟨k, p, hy, -⟩ | ⟨x, b, hx, hpb, rfl⟩, hon⟩ := h
      · cases hy
      · cases hy
      cases hpb
      obtain ⟨x', hx', hstaged⟩ := stageSave_eq_ok (Prod.ext (hon _ rfl) rfl)
      obtain rfl := Except.ok.inj (hx.symm.trans hx')
      have hb : SaveStages m c₁ (IndexPlan.ofEntries owned x) b :=
        .intro (hid.2 id rfl) (hold.2.2 old rfl) (howned.2.2 owned rfl) hx hstaged
      have hne : b.writes ≠ [] := Batch.writes_ne_nil (k := Key.member m.name id) (by
        rw [hstaged, IndexPlan.saved, if_pos rfl]
        exact Option.some_ne_none _)
      refine Progress.of_called (Batch.does_commit hne c₁) hb fun writes c₂ => ?_
      rintro s rfl
      exact ⟨[.note db.verbose _], rfl, id, _, _, rfl, rfl⟩

theorem does_deleteUnder (db : Database) (m : KeyspaceModel) (id : String) (c : Content) :
    Does (db.deleteUnder m id) c fun r _ acts =>
      Progress m.name (· = false) (DeleteStages m id c) r acts := by
  unfold deleteUnder
  refine Progress.after_reads ((Task.logs_load m.name id c).on (Task.reading_load _ _))
    (fun _ _ _ h => ⟨h.1, h.2.1⟩) fun old _ hold => ?_
  refine Progress.after_reads ((BackRefs.logs_owned m id old c).on (BackRefs.reading_owned _ _ _))
    (fun _ _ _ h => ⟨h.1, h.2.1⟩) fun owned _ howned => ?_
  split
  · exact (Does.note (Q := fun _ _ acts => ∀ a ∈ acts, a.Reads)
      (List.forall_mem_singleton.mpr trivial)).bind (fun _ _ _ h => .failed h) fun _ _ _ h =>
        Does.pure (.unstaged (List.forall_mem_append.mpr ⟨h, List.forall_mem_nil _⟩) fun _ hr =>
          (Except.ok.inj hr).symm)
  · rename_i hstored
    refine (((IndexPlan.forDelete owned).does_stage Batch.empty m.name id c).on
      (IndexPlan.reading_stage _ _ _ _)).bind (fun x _ _ h => ?_) fun b c₁ _ h => ?_
    · obtain ⟨-, ⟨b, hb, -⟩ | ⟨y, -, rfl⟩, -⟩ := h
      · cases hb
      · exact .failed (List.forall_mem_nil _)
    · obtain ⟨rfl, ⟨b', -, rfl⟩ | ⟨y, hy, -⟩, hon⟩ := h
      · have hplanned := IndexPlan.stage_eq_ok List.Pairwise.nil (Prod.ext (hon b rfl) rfl)
        have hb : DeleteStages m id c₁ (IndexPlan.forDelete owned)
            ((b.delete (Key.record m.name id)).delete (Key.member m.name id)) := by
          refine .intro (hold.2.2 old rfl) (howned.2.2 owned rfl) ?_ fun k => ?_
          · simpa using hstored
          · rw [Batch.staged_delete, Batch.staged_delete, hplanned, Batch.staged_empty,
              Option.or_none]
            grind
        have hne : ((b.delete (Key.record m.name id)).delete (Key.member m.name id)).writes ≠ [] :=
          Batch.writes_ne_nil (k := Key.member m.name id) (by
            rw [Batch.staged_delete, if_pos rfl]
            exact Option.some_ne_none _)
        refine Progress.of_called (Batch.Called.discard (Batch.does_commit hne c₁)) hb
          fun _ c₂ => ?_
        rintro s rfl
        exact ⟨[.note db.verbose _], rfl, old.isSome, _, _, rfl, rfl⟩
      · cases hy

end Database

end IndexedStore
