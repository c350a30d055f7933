import IndexedStore.Operation.Load
import IndexedStore.Storage.Batch

/-! # Tasks that read

A reading task changes nothing but the journal, and what it gives depends on the content
alone: `Task.on` is its result over a healthy backing store. Under failures the result is
either that one or a failure. A task is `FailSafe` when a failure leaves the content as it
was.
-/
namespace IndexedStore

/-- The engines differ in their journals only. -/
structure Engine.Same (s s' : Engine) : Prop where
  content : s'.content = s.content
  faults : s'.faults = s.faults
  ids : s'.ids = s.ids

theorem Engine.Same.refl (s : Engine) : Same s s := ⟨rfl, rfl, rfl⟩

theorem Engine.Same.trans {s s' s'' : Engine} (h : Same s s') (h' : Same s' s'') : Same s s'' :=
  ⟨h'.content.trans h.content, h'.faults.trans h.faults, h'.ids.trans h.ids⟩

theorem Engine.Same.log {s s' : Engine} (h : Same s s') (a : Activity) : Same s (s'.log a) :=
  ⟨h.content, h.faults, h.ids⟩

namespace Task

variable {α β : Type}

/-- The result over a healthy backing store that holds `c`. -/
def on (t : Task α) (c : Content) : Except Error α := (t (Engine.holding c)).1

theorem run_of_toOption {t : Task α} {s : Engine} {a : α} (h : (t s).1.toOption = some a) :
    t s = (.ok a, (t s).2) := by
  rcases hrun : t s with ⟨x | b, s'⟩ <;> rw [hrun] at h <;> cases h
  rfl

theorem bind_run_ok {t : Task α} {f : α → Task β} {s s' : Engine} {a : α}
    (h : t s = (.ok a, s')) : (t >>= f) s = f a s' := by
  show ExceptT.bindCont f (t s).1 (t s).2 = _
  rw [h]
  rfl

theorem bind_run_error {t : Task α} {f : α → Task β} {s s' : Engine} {e : Error}
    (h : t s = (.error e, s')) : (t >>= f) s = (.error e, s') := by
  show ExceptT.bindCont f (t s).1 (t s).2 = _
  rw [h]
  rfl

theorem bind_eq_ok {t : Task α} {f : α → Task β} {s s' : Engine} {b : β}
    (h : (t >>= f) s = (.ok b, s')) : ∃ a s₁, t s = (.ok a, s₁) ∧ f a s₁ = (.ok b, s') := by
  rcases ht : t s with ⟨_ | a, s₁⟩
  · rw [bind_run_error ht] at h
    cases h
  · exact ⟨a, s₁, rfl, (bind_run_ok ht).symm.trans h⟩

/-- A call that fails leaves its trace in the journal and nothing else. -/
theorem perform_run_error {call : Call} {act : Content → α × Content} {s : Engine}
    {e : BackendError} (h : s.faults s.journal call = some e) :
    perform call act s = (.error (.storeUnavailable e), s.log (.call call)) := by
  unfold perform
  rw [h]

theorem perform_run_ok {call : Call} {act : Content → α × Content} {s : Engine}
    (h : s.faults s.journal call = none) :
    perform call act s =
      (.ok (act s.content).1, { s.log (.call call) with content := (act s.content).2 }) := by
  unfold perform
  rw [h]
  rfl

theorem except_bind_eq_ok {r : Except Error α} {f : α → Except Error β} {b : β}
    (h : r.bind f = .ok b) : ∃ a, r = .ok a ∧ f a = .ok b := by
  cases r with
  | error e => cases h
  | ok a => exact ⟨a, rfl, h⟩

structure Reading (t : Task α) : Prop where
  same : ∀ s : Engine, s.Same (t s).2
  ok : ∀ s a, (t s).1 = .ok a → t.on s.content = .ok a
  healthy : ∀ s, s.faults = Faults.none → (t s).1 = t.on s.content

namespace Reading

theorem run_ok {t : Task α} (ht : Reading t) {s s' : Engine} {a : α} (h : t s = (.ok a, s')) :
    s.Same s' ∧ t.on s.content = .ok a := by
  have hs := ht.same s
  rw [h] at hs
  exact ⟨hs, ht.ok s a (by rw [h])⟩

theorem of_const {r : Except Error α} {t : Task α} (h : ∀ s, (t s).1 = r)
    (hs : ∀ s : Engine, s.Same (t s).2) : Reading t where
  same := hs
  ok s a ha := by rw [on, h, ← h s, ha]
  healthy s _ := by rw [on, h, h]

theorem ofExcept (r : Except Error α) : Reading (Task.ofExcept r) :=
  of_const (fun _ => rfl) Engine.Same.refl

theorem pure (a : α) : Reading (Pure.pure a : Task α) :=
  of_const (r := .ok a) (fun _ => rfl) Engine.Same.refl

theorem emit (e : Event) : Reading (Task.emit e) :=
  of_const (r := .ok ()) (fun _ => rfl) fun s => (Engine.Same.refl s).log _

theorem note (verbose : Bool) (n : Note) : Reading (Task.note verbose n) :=
  of_const (r := .ok ()) (fun _ => rfl) fun s => (Engine.Same.refl s).log _

theorem perform {call : Call} {act : Content → α × Content} (h : ∀ c, (act c).2 = c) :
    Reading (Task.perform call act) where
  same s := by
    unfold Task.perform
    cases s.faults s.journal call with
    | some e => exact (Engine.Same.refl s).log _
    | none => exact ⟨h _, rfl, rfl⟩
  ok s a ha := by
    unfold Task.perform at ha
    cases hf : s.faults s.journal call with
    | some e =>
      simp only [hf] at ha
      cases ha
    | none =>
      simp only [hf] at ha
      exact ha
  healthy s hs := by
    unfold Task.perform
    rw [hs]
    rfl

theorem get (key : String) : Reading (Task.get key) := perform fun _ => rfl

theorem scan (start : String) : Reading (Task.scan start) := perform fun _ => rfl

theorem same_bind {t : Task α} {f : α → Task β} (ht : Reading t) (hf : ∀ a, Reading (f a))
    (s : Engine) : s.Same ((t >>= f) s).2 := by
  have hs := ht.same s
  rcases h : t s with ⟨_ | a, s'⟩
  · rw [bind_run_error h]
    rwa [h] at hs
  · rw [bind_run_ok h]
    rw [h] at hs
    exact hs.trans ((hf a).same s')

end Reading

/-- Over a healthy backing store a sequence of reading tasks reads one content twice. -/
theorem on_bind {t : Task α} {f : α → Task β} (ht : Reading t) (hf : ∀ a, Reading (f a))
    (c : Content) : (t >>= f).on c = (t.on c).bind fun a => (f a).on c := by
  have hs := ht.same (Engine.holding c)
  rcases h : t (Engine.holding c) with ⟨e | a, s'⟩
  · have hon : t.on c = .error e := by rw [on, h]
    rw [hon, on, bind_run_error h]
    rfl
  · have hon : t.on c = .ok a := by rw [on, h]
    rw [h] at hs
    rw [hon, on, bind_run_ok h, (hf a).healthy s' hs.faults, hs.content]
    rfl

theorem Reading.bind {t : Task α} {f : α → Task β} (ht : Reading t) (hf : ∀ a, Reading (f a)) :
    Reading (t >>= f) where
  same := ht.same_bind hf
  ok s b hb := by
    obtain ⟨a, s', hs, hb⟩ := bind_eq_ok (Prod.ext hb rfl : (t >>= f) s = (.ok b, _))
    obtain ⟨hsame, ha⟩ := ht.run_ok hs
    have hfb := ((hf a).run_ok hb).2
    rw [on_bind ht hf, ha, ← hsame.content]
    exact hfb
  healthy s hs := by
    have hsame := ht.same s
    have hon := ht.healthy s hs
    rw [on_bind ht hf]
    rcases h : t s with ⟨e | a, s'⟩
    · rw [h] at hon
      rw [bind_run_error h, ← hon]
      rfl
    · rw [h] at hon hsame
      rw [bind_run_ok h, ← hon, (hf a).healthy s' (hsame.faults.trans hs), hsame.content]
      rfl

theorem on_bind_eq_ok {t : Task α} {f : α → Task β} (ht : Reading t) (hf : ∀ a, Reading (f a))
    {c : Content} {b : β} :
    (t >>= f).on c = .ok b ↔ ∃ a, t.on c = .ok a ∧ (f a).on c = .ok b := by
  rw [on_bind ht hf]
  constructor
  · exact except_bind_eq_ok
  · rintro ⟨a, ha, hb⟩
    rw [ha]
    exact hb

@[simp] theorem on_pure (a : α) (c : Content) : (pure a : Task α).on c = .ok a := rfl
@[simp] theorem on_ofExcept (r : Except Error α) (c : Content) : (ofExcept r).on c = r := rfl
@[simp] theorem on_get (key : String) (c : Content) : (get key).on c = .ok (c.get? key) := rfl
@[simp] theorem on_scan (start : String) (c : Content) :
    (scan start).on c = .ok (c.scan start) := rfl

/-- What stands under a key, read as a value. -/
def readAt (α : Type) [Storable α] (c : Content) (key : String) : Except Error (Option α) :=
  match c.get? key with
  | none => .ok none
  | some b => ((decode b).mapError fun e => .corruption key (.undecodable e)).map some

theorem readAt_none {α : Type} [Storable α] {c : Content} {key : String}
    (h : c.get? key = none) : readAt α c key = .ok none := by
  rw [readAt, h]

theorem readAt_some {α : Type} [Storable α] {c : Content} {key : String} {b : Bytes}
    {o : Option α} (h : c.get? key = some b) (ho : readAt α c key = .ok o) :
    ∃ a, o = some a ∧ decode b = .ok a := by
  rw [readAt, h] at ho
  cases hd : (decode b : Except CodecError α) with
  | error e =>
    simp only [hd] at ho
    cases ho
  | ok a =>
    simp only [hd] at ho
    cases ho
    exact ⟨a, rfl, rfl⟩

theorem reading_decodeAt {α : Type} [Storable α] (key : String) (b : Bytes) :
    Reading (decodeAt key b : Task α) := Reading.ofExcept _

theorem on_decodeAt {α : Type} [Storable α] (key : String) (b : Bytes) (c : Content) :
    (decodeAt key b : Task α).on c =
      (decode b).mapError fun e => .corruption key (.undecodable e) := rfl

theorem reading_load_of (keyspace id key : String) (o : Option Bytes) :
    Reading (match o with
      | none => pure none
      | some b => do
        let r : StoredRecord ← decodeAt key b
        pure (some (Entity.mk keyspace (some id) r.fields))) := by
  cases o with
  | none => exact Reading.pure _
  | some b => exact (reading_decodeAt _ _).bind fun r => Reading.pure _

theorem reading_load (keyspace id : String) : Reading (load keyspace id) :=
  (Reading.get _).bind fun o => reading_load_of keyspace id _ o

theorem on_load (keyspace id : String) (c : Content) :
    (load keyspace id).on c = (readAt StoredRecord c (Key.record keyspace id)).map
      (Option.map fun r => ⟨keyspace, some id, r.fields⟩) := by
  refine (on_bind (Reading.get _) (fun o => reading_load_of keyspace id _ o) c).trans ?_
  rw [on_get, readAt]
  simp only [Except.bind]
  cases c.get? (Key.record keyspace id) with
  | none => rfl
  | some b =>
    simp only
    rw [on_bind (reading_decodeAt _ _) fun _ => Reading.pure _, on_decodeAt]
    cases (decode b : Except CodecError StoredRecord) <;> rfl

theorem reading_scanIds (start : String) : Reading (scanIds start) :=
  (Reading.scan start).bind fun _ => Reading.pure _

/-- A failure leaves the content as it was. -/
def FailSafe (t : Task α) : Prop :=
  ∀ s e s', t s = (.error e, s') → s'.content = s.content

theorem Reading.failSafe {t : Task α} (ht : Reading t) : FailSafe t := by
  intro s e s' h
  have hs := (ht.same s).content
  rwa [h] at hs

def Keeps (t : Task α) : Prop := ∀ s : Engine, (t s).2.content = s.content

theorem Reading.keeps {t : Task α} (ht : Reading t) : Keeps t := fun s => (ht.same s).content

theorem Keeps.bind_failSafe {t : Task α} {f : α → Task β} (ht : Keeps t)
    (hf : ∀ a, FailSafe (f a)) : FailSafe (t >>= f) := by
  intro s e s' h
  have hs := ht s
  rcases hr : t s with ⟨e' | a, s₁⟩
  · rw [bind_run_error hr] at h
    cases h
    rwa [hr] at hs
  · rw [bind_run_ok hr] at h
    rw [hr] at hs
    exact ((hf a) s₁ e s' h).trans hs

def Total (t : Task α) : Prop := ∀ s, ∃ a s', t s = (.ok a, s')

theorem FailSafe.bind_total {t : Task α} {f : α → Task β} (ht : FailSafe t)
    (hf : ∀ a, Total (f a)) : FailSafe (t >>= f) := by
  intro s e s' h
  rcases hr : t s with ⟨e' | a, s₁⟩
  · rw [bind_run_error hr] at h
    cases h
    exact ht s e s' hr
  · rw [bind_run_ok hr] at h
    obtain ⟨b, s₂, hb⟩ := hf a s₁
    rw [hb] at h
    cases h

theorem failSafe_batch (writes : List Write) : FailSafe (batch writes) := by
  intro s e s' h
  unfold batch perform at h
  cases hf : s.faults s.journal (.batch writes) <;> simp only [hf] at h <;> cases h
  rfl

theorem batch_run_ok {writes : List Write} {s s' : Engine} {u : Unit}
    (h : batch writes s = (.ok u, s')) :
    s'.content = s.content.apply writes ∧ s'.ids = s.ids := by
  unfold batch perform at h
  cases hf : s.faults s.journal (.batch writes) <;> simp only [hf] at h <;> cases h
  exact ⟨rfl, rfl⟩

theorem spanned_run {kind : ExecKind} {keyspace : String} {rows : α → Nat} {body : Task α}
    {s s' : Engine} {r : Except Error α} (h : spanned kind keyspace rows body s = (r, s')) :
    ∃ s₁, body (s.log (.event (.started kind keyspace))) = (r, s₁) ∧ s₁.Same s' := by
  unfold spanned at h
  rcases hb : body (s.log (.event (.started kind keyspace))) with ⟨r₁, s₁⟩
  simp only [hb] at h
  obtain ⟨rfl, rfl⟩ := Prod.mk.inj h
  exact ⟨s₁, rfl, (Engine.Same.refl s₁).log _⟩

theorem on_spanned {kind : ExecKind} {keyspace : String} {rows : α → Nat} {body : Task α}
    (hb : Reading body) (c : Content) : (spanned kind keyspace rows body).on c = body.on c :=
  hb.healthy ((Engine.holding c).log _) rfl

theorem Reading.spanned {kind : ExecKind} {keyspace : String} {rows : α → Nat} {body : Task α}
    (hb : Reading body) : Reading (spanned kind keyspace rows body) where
  same s := ((Engine.Same.refl s).log _).trans ((hb.same _).log _)
  ok s a ha := (on_spanned hb _).trans (hb.ok (s.log _) a ha)
  healthy s hs := (hb.healthy (s.log _) hs).trans (on_spanned hb _).symm

theorem FailSafe.spanned {kind : ExecKind} {keyspace : String} {rows : α → Nat} {body : Task α}
    (hb : FailSafe body) : FailSafe (spanned kind keyspace rows body) := by
  intro s e s' h
  obtain ⟨s₁, hbody, hsame⟩ := spanned_run h
  have hc := hb (s.log (.event (.started kind keyspace))) e s₁ hbody
  exact hsame.content.trans hc

end Task

end IndexedStore
