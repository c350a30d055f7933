import IndexedStore.Proofs.Storage.Reading

/-! # The calls behind a result

`Task.Yields t c Q` says that the task changes nothing and that, whenever it succeeds on the
content `c`, its result and the calls it made on the way, in order, satisfy `Q`. Results of tasks
in sequence come from the calls of one after those of the other.
-/
namespace IndexedStore

/-- The calls on the way from the engine `s` to `s'`, in order. -/
def Engine.Made (s s' : Engine) (calls : List Call) : Prop :=
  ∃ new, s'.journal = new ++ s.journal ∧ (new.filterMap Activity.call?).reverse = calls

namespace Engine.Made

variable {s s' s'' : Engine} {calls calls' : List Call}

theorem refl (s : Engine) : s.Made s [] := ⟨[], rfl, rfl⟩

theorem trans (h : s.Made s' calls) (h' : s'.Made s'' calls') : s.Made s'' (calls ++ calls') := by
  obtain ⟨new, hnew, rfl⟩ := h
  obtain ⟨new', hnew', rfl⟩ := h'
  refine ⟨new' ++ new, ?_, ?_⟩
  · rw [hnew', hnew, List.append_assoc]
  · rw [List.filterMap_append, List.reverse_append]

theorem unique (h : s.Made s' calls) (h' : s.Made s' calls') : calls = calls' := by
  obtain ⟨new, hnew, rfl⟩ := h
  obtain ⟨new', hnew', rfl⟩ := h'
  rw [List.append_cancel_right (hnew.symm.trans hnew')]

theorem log (h : s.Made s' calls) {a : Activity} (ha : a.call? = none) :
    s.Made (s'.log a) calls := by
  obtain ⟨new, hnew, rfl⟩ := h
  refine ⟨a :: new, by rw [log, hnew, List.cons_append], ?_⟩
  rw [List.filterMap_cons_none ha]

end Engine.Made

namespace Task

variable {α β : Type} {c : Content} {P Q : α → List Call → Prop}

/-- Whenever the task succeeds on `c`, it leaves the content, and its result and the calls it made
satisfy `Q`. -/
def Yields (t : Task α) (c : Content) (Q : α → List Call → Prop) : Prop :=
  ∀ s a s', s.content = c → t s = (.ok a, s') →
    s'.content = c ∧ ∃ calls, s.Made s' calls ∧ Q a calls

namespace Yields

theorem mono {t : Task α} (ht : Yields t c P) (h : ∀ a calls, P a calls → Q a calls) :
    Yields t c Q := by
  intro s a s' hs hrun
  obtain ⟨hs', calls, hmade, hP⟩ := ht s a s' hs hrun
  exact ⟨hs', calls, hmade, h a calls hP⟩

theorem bind {t : Task α} {f : α → Task β} {R : β → List Call → Prop} (ht : Yields t c P)
    (hf : ∀ a calls, P a calls → Yields (f a) c fun b calls' => R b (calls ++ calls')) :
    Yields (t >>= f) c R := by
  intro s b s'' hs hrun
  obtain ⟨a, s', ht', hrun⟩ := bind_eq_ok hrun
  obtain ⟨hs', calls, hmade, hP⟩ := ht s a s' hs ht'
  obtain ⟨hs'', calls', hmade', hR⟩ := hf a calls hP s' b s'' hs' hrun
  exact ⟨hs'', calls ++ calls', hmade.trans hmade', hR⟩

theorem on {t : Task α} (ht : Yields t c Q) (hr : Reading t) :
    Yields t c fun a calls => t.on c = .ok a ∧ Q a calls := by
  intro s a s' hs hrun
  obtain ⟨-, hon⟩ := hr.run_ok hrun
  obtain ⟨hs', calls, hmade, hQ⟩ := ht s a s' hs hrun
  rw [hs] at hon
  exact ⟨hs', calls, hmade, hon, hQ⟩

theorem of_silent {t : Task α} (hlog : ∀ s, (t s).2 = s) (h : ∀ a, t.on c = .ok a → Q a [])
    (ht : Reading t) : Yields t c Q := by
  intro s a s' hs hrun
  obtain ⟨hsame, hon⟩ := ht.run_ok hrun
  obtain rfl : s = s' := (hlog s).symm.trans (congrArg Prod.snd hrun)
  rw [hs] at hon
  exact ⟨hs, [], .refl s, h a hon⟩

theorem pure {a : α} (h : Q a []) : Yields (Pure.pure a : Task α) c Q :=
  of_silent (fun _ => rfl) (fun b hb => by cases hb; exact h) (Reading.pure a)

theorem ofExcept {r : Except Error α} (h : ∀ a, r = .ok a → Q a []) :
    Yields (Task.ofExcept r) c Q :=
  of_silent (fun _ => rfl) h (Reading.ofExcept r)

theorem emit {e : Event} {Q : Unit → List Call → Prop} (h : Q () []) :
    Yields (Task.emit e) c Q := by
  intro s u s' hs hrun
  cases hrun
  exact ⟨hs, [], (Engine.Made.refl s).log rfl, h⟩

theorem note {verbose : Bool} {n : Note} {Q : Unit → List Call → Prop} (h : Q () []) :
    Yields (Task.note verbose n) c Q := by
  intro s u s' hs hrun
  cases hrun
  exact ⟨hs, [], (Engine.Made.refl s).log rfl, h⟩

theorem perform {call : Call} {act : Content → α × Content} (hact : ∀ c, (act c).2 = c)
    (h : Q (act c).1 [call]) : Yields (Task.perform call act) c Q := by
  intro s a s' hs hrun
  unfold Task.perform at hrun
  cases hf : s.faults s.journal call with
  | some e =>
    simp only [hf] at hrun
    cases hrun
  | none =>
    simp only [hf] at hrun
    cases hrun
    refine ⟨(hact _).trans hs, [call], ⟨[.call call], rfl, rfl⟩, ?_⟩
    rw [← hs] at h
    exact h

theorem get {key : String} {Q : Option Bytes → List Call → Prop}
    (h : Q (c.get? key) [.get key]) : Yields (Task.get key) c Q :=
  perform (fun _ => rfl) h

theorem scan {start : String} {Q : List (String × Bytes) → List Call → Prop}
    (h : Q (c.scan start) [.scan start]) : Yields (Task.scan start) c Q :=
  perform (fun _ => rfl) h

theorem spanned {kind : ExecKind} {keyspace : String} {rows : α → Nat} {body : Task α}
    (hb : Yields body c Q) : Yields (Task.spanned kind keyspace rows body) c Q := by
  intro s a s' hs hrun
  unfold Task.spanned at hrun
  rcases hbody : body (s.log (.event (.started kind keyspace))) with ⟨r, s₁⟩
  simp only [hbody] at hrun
  obtain ⟨rfl, rfl⟩ := Prod.mk.inj hrun
  obtain ⟨hs₁, calls, hmade, hQ⟩ := hb (s.log (.event (.started kind keyspace))) a s₁ hs hbody
  have hstart : s.Made (s.log (.event (.started kind keyspace))) [] :=
    (Engine.Made.refl s).log rfl
  exact ⟨hs₁, calls, (hstart.trans hmade).log rfl, hQ⟩

theorem mapM {f : α → Task β} {g : α → List Call}
    (h : ∀ a, Yields (f a) c fun _ calls => calls = g a) (l : List α) :
    Yields (l.mapM f) c fun _ calls => calls = l.flatMap g := by
  induction l with
  | nil =>
    rw [List.mapM_nil]
    exact pure rfl
  | cons a l ih =>
    rw [List.mapM_cons]
    refine (h a).bind fun b calls hcalls => ?_
    refine ih.bind fun bs calls' hcalls' => pure ?_
    rw [hcalls, hcalls', List.append_nil, List.flatMap_cons]

end Yields

end Task

end IndexedStore
