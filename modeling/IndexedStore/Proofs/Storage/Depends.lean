import IndexedStore.Index.Plan
import IndexedStore.Proofs.Storage.Batch

/-! # What a task depends on

Two engines are alike on a set of keys when they agree there and their calls fail alike,
whatever was done before. A task depends on these keys alone when it gives one result on such
engines and leaves them alike. Engines that agree on more keys still agree there afterwards.
-/
namespace IndexedStore

/-- Whether a call fails does not depend on what happened before it. -/
def Faults.Steady (f : Faults) : Prop := ∀ j j' c, f j' c = f j c

theorem Faults.steady_none : Faults.none.Steady := fun _ _ _ => rfl

/-- The engines agree on the keys in `P`, and calls fail in both alike. -/
structure Engine.Alike (P : String → Prop) (s s' : Engine) : Prop where
  content : ∀ k, P k → s'.content.get? k = s.content.get? k
  faults : ∀ j j' c, s'.faults j' c = s.faults j c

theorem Engine.Alike.of_same {P : String → Prop} {s s' t t' : Engine} (h : s.Alike P s')
    (hs : s.Same t) (hs' : s'.Same t') : t.Alike P t' where
  content k hk := by rw [hs.content, hs'.content, h.content k hk]
  faults j j' c := by rw [hs.faults, hs'.faults, h.faults j]

namespace Task

variable {α β : Type} {P : String → Prop}

/-- Of the content, only the keys in `P` decide what the task gives and what it makes of
them. -/
def DependsOn (P : String → Prop) (t : Task α) : Prop :=
  ∀ s s' : Engine, s.Alike P s' → (t s').1 = (t s).1 ∧ (t s).2.Alike P (t s').2

namespace DependsOn

theorem of_const {r : Except Error α} {t : Task α} (h : ∀ s, (t s).1 = r)
    (hs : ∀ s : Engine, s.Same (t s).2) : DependsOn P t := by
  intro s s' ha
  rw [h, h]
  exact ⟨rfl, ha.of_same (hs s) (hs s')⟩

theorem ofExcept (r : Except Error α) : DependsOn P (Task.ofExcept r) :=
  of_const (fun _ => rfl) Engine.Same.refl

theorem pure (a : α) : DependsOn P (Pure.pure a : Task α) :=
  of_const (r := .ok a) (fun _ => rfl) Engine.Same.refl

theorem emit (e : Event) : DependsOn P (Task.emit e) :=
  of_const (r := .ok ()) (fun _ => rfl) fun s => (Engine.Same.refl s).log _

theorem note (verbose : Bool) (n : Note) : DependsOn P (Task.note verbose n) :=
  of_const (r := .ok ()) (fun _ => rfl) fun s => (Engine.Same.refl s).log _

theorem bind {t : Task α} {f : α → Task β} (ht : DependsOn P t) (hf : ∀ a, DependsOn P (f a)) :
    DependsOn P (t >>= f) := by
  intro s s' ha
  obtain ⟨hr, ha'⟩ := ht s s' ha
  rcases h : t s with ⟨e | a, s₁⟩ <;> rcases h' : t s' with ⟨e' | a', s₁'⟩ <;>
    rw [h, h'] at hr ha' <;> cases hr
  · rw [bind_run_error h, bind_run_error h']
    exact ⟨rfl, ha'⟩
  · rw [bind_run_ok h, bind_run_ok h']
    exact hf a s₁ s₁' ha'

/-- What comes after a check may use what it gave. -/
theorem ofExcept_bind {r : Except Error α} {f : α → Task β}
    (hf : ∀ a, r = .ok a → DependsOn P (f a)) : DependsOn P (Task.ofExcept r >>= f) := by
  cases r with
  | error x => exact of_const (r := .error x) (fun _ => rfl) Engine.Same.refl
  | ok a => exact hf a rfl

theorem perform {call : Call} {act : Content → α × Content}
    (h : ∀ c c' : Content, (∀ k, P k → c'.get? k = c.get? k) →
      (act c').1 = (act c).1 ∧ ∀ k, P k → (act c').2.get? k = (act c).2.get? k) :
    DependsOn P (Task.perform call act) := by
  intro s s' ha
  have hf := ha.faults s.journal s'.journal call
  obtain ⟨hr, hc⟩ := h s.content s'.content ha.content
  unfold Task.perform
  cases he : s.faults s.journal call with
  | some e =>
    simp only [hf, he]
    exact ⟨trivial, ha.content, ha.faults⟩
  | none =>
    simp only [hf, he]
    exact ⟨congrArg _ hr, hc, ha.faults⟩

theorem get {key : String} (hk : P key) : DependsOn P (Task.get key) :=
  perform fun _ _ h => ⟨h key hk, h⟩

theorem batch (writes : List Write) : DependsOn P (Task.batch writes) := by
  refine perform fun c c' h => ⟨rfl, ?_⟩
  show ∀ k, P k → (c'.apply writes).get? k = (c.apply writes).get? k
  induction writes generalizing c c' with
  | nil => exact h
  | cons w writes ih =>
    refine ih (c.write w) (c'.write w) fun k hk => ?_
    rw [Content.get?_write, Content.get?_write, h k hk]

theorem spanned {kind : ExecKind} {keyspace : String} {rows : α → Nat} {body : Task α}
    (hb : DependsOn P body) : DependsOn P (Task.spanned kind keyspace rows body) := by
  intro s s' ha
  have hlog : ∀ e : Activity, (s.log e).Alike P (s'.log e) := fun e => ⟨ha.content, ha.faults⟩
  obtain ⟨hr, ha'⟩ := hb _ _ (hlog (.event (.started kind keyspace)))
  exact ⟨hr, ha'.content, ha'.faults⟩

theorem decodeAt [Storable α] (key : String) (b : Bytes) : DependsOn P (decodeAt key b : Task α) :=
  ofExcept _

theorem load {keyspace id : String} (hk : P (Key.record keyspace id)) :
    DependsOn P (load keyspace id) := by
  refine (get hk).bind fun o => ?_
  cases o with
  | none => exact pure _
  | some b => exact (decodeAt _ _).bind fun r => pure _

theorem commit (b : Batch) : DependsOn P b.commit := by
  unfold Batch.commit
  cases b.writes.isEmpty with
  | true => exact pure _
  | false => exact (batch _).bind fun _ => pure _

end DependsOn

end Task

open IndexedStore.Task (DependsOn)

variable {P : String → Prop}

theorem BackRefs.dependsOn_owned {m : KeyspaceModel} {id : String}
    (hk : P (Key.backRefs m.name id)) (old : Option Entity) :
    DependsOn P (owned Batch.empty m id old) := by
  refine DependsOn.bind (t := Batch.empty.read? (Key.backRefs m.name id)) ?_ fun o => ?_
  · refine (DependsOn.get hk).bind fun o => ?_
    cases o with
    | none => exact DependsOn.pure _
    | some b => exact (DependsOn.decodeAt _ b).bind fun _ => DependsOn.pure _
  · cases o with
    | some r => exact DependsOn.pure r
    | none =>
      cases old with
      | none => exact DependsOn.pure _
      | some e => exact DependsOn.ofExcept _

namespace Batch

variable {α : Type} [Storable α]

theorem dependsOn_store (b : Batch) (key : String) (a : α) : DependsOn P (b.store key a) :=
  (DependsOn.ofExcept _).bind fun _ => DependsOn.pure _

theorem dependsOn_stores (l : List (String × α)) (b : Batch) :
    DependsOn P (l.foldlM (fun b g => b.store g.1 g.2) b : Task Batch) := by
  induction l generalizing b with
  | nil => exact DependsOn.pure b
  | cons g l ih => exact (dependsOn_store b g.1 g.2).bind ih

end Batch

theorem IndexPlan.dependsOn_stage (p : IndexPlan) (b : Batch) (keyspace id : String) :
    DependsOn P (p.stage b keyspace id) := by
  refine (Batch.dependsOn_stores _ _).bind fun b' => ?_
  have hemit : ∀ b'' : Batch, DependsOn P (do
      Task.emit (.indexed keyspace (UInt64.ofNat p.inserts) (UInt64.ofNat p.removes))
      return b'') := fun b'' => (DependsOn.emit _).bind fun _ => DependsOn.pure _
  by_cases hr : p.refs.isEmpty = true
  · simp only [hr, if_true]
    exact (DependsOn.pure _).bind hemit
  · simp only [hr]
    exact (Batch.dependsOn_store _ _ _).bind hemit

end IndexedStore
