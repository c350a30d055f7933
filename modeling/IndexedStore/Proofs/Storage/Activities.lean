import IndexedStore.Proofs.Storage.Calls
import IndexedStore.Proofs.Storage.Trace

/-! # What a run writes into the journal

`Task.Does t c Q` is about every run of a task on the content `c`, whichever calls fail: the
result, the content that is left and what came into the journal, in order, satisfy `Q`.
`Task.Logs p t` says no more than that everything written there satisfies `p`.
-/
namespace IndexedStore

open IndexedStore.Task (Reading)

namespace Engine

/-- What came into the journal on the way from `s` to `s'`, in order. -/
def Did (s s' : Engine) (acts : List Activity) : Prop := s'.journal = acts.reverse ++ s.journal

def Told (s s' : Engine) (events : List Event) : Prop :=
  ∃ acts, s.Did s' acts ∧ acts.filterMap Activity.event? = events

variable {s s' s'' : Engine} {acts acts' : List Activity} {events events' : List Event}

theorem Did.refl (s : Engine) : s.Did s [] := rfl

theorem Did.trans (h : s.Did s' acts) (h' : s'.Did s'' acts') : s.Did s'' (acts ++ acts') := by
  rw [Did, h', h, List.reverse_append, List.append_assoc]

theorem Did.log (h : s.Did s' acts) (a : Activity) : s.Did (s'.log a) (acts ++ [a]) :=
  h.trans rfl

theorem Did.unique (h : s.Did s' acts) (h' : s.Did s' acts') : acts = acts' :=
  List.reverse_inj.mp (List.append_cancel_right (h.symm.trans h'))

theorem Did.of_fresh (h : s.journal = []) : s.Did s' s'.journal.reverse := by
  rw [Did, List.reverse_reverse, h, List.append_nil]

theorem Did.made (h : s.Did s' acts) : s.Made s' (acts.filterMap Activity.call?) := by
  refine ⟨acts.reverse, h, ?_⟩
  rw [List.filterMap_reverse, List.reverse_reverse]

theorem Told.refl (s : Engine) : s.Told s [] := ⟨[], .refl s, rfl⟩

theorem Told.trans (h : s.Told s' events) (h' : s'.Told s'' events') :
    s.Told s'' (events ++ events') := by
  obtain ⟨acts, hacts, rfl⟩ := h
  obtain ⟨acts', hacts', rfl⟩ := h'
  exact ⟨acts ++ acts', hacts.trans hacts', List.filterMap_append⟩

theorem Told.unique (h : s.Told s' events) (h' : s.Told s' events') : events = events' := by
  obtain ⟨acts, hacts, rfl⟩ := h
  obtain ⟨acts', hacts', rfl⟩ := h'
  rw [hacts.unique hacts']

end Engine

/-- A call that changes nothing, or a note. -/
def Activity.Reads : Activity → Prop
  | .call c => c.kind.mutates = false
  | .event _ => False
  | .note _ _ => True

/-- An event satisfies `p`; calls and notes do not matter. -/
def Activity.Tells (p : Event → Prop) : Activity → Prop
  | .event e => p e
  | .call _ | .note _ _ => True

theorem Activity.Reads.tells {p : Event → Prop} {a : Activity} (h : a.Reads) : a.Tells p := by
  cases a with
  | event e => exact h.elim
  | call c => trivial
  | note verbose n => trivial

theorem Activity.events_of_tells {p : Event → Prop} {acts : List Activity}
    (h : ∀ a ∈ acts, a.Tells p) : ∀ e ∈ acts.filterMap Activity.event?, p e := by
  intro e he
  obtain ⟨a, ha, hae⟩ := List.mem_filterMap.mp he
  have htells := h a ha
  cases a <;> cases hae
  exact htells

theorem Activity.calls_of_span (start finish : Event) (inner : List Activity) :
    (Activity.event start :: inner ++ [Activity.event finish]).filterMap Activity.call? =
      inner.filterMap Activity.call? := by
  rw [List.cons_append, List.filterMap_cons_none rfl, List.filterMap_append,
    List.filterMap_cons_none rfl, List.filterMap_nil, List.append_nil]

theorem Activity.events_of_span (start finish : Event) (inner : List Activity) :
    (Activity.event start :: inner ++ [Activity.event finish]).filterMap Activity.event? =
      start :: inner.filterMap Activity.event? ++ [finish] := by
  simp [Activity.event?]

theorem Activity.events_of_reads {acts : List Activity} (h : ∀ a ∈ acts, a.Reads) :
    acts.filterMap Activity.event? = [] := by
  refine List.filterMap_eq_nil_iff.mpr fun a ha => ?_
  have hread := h a ha
  cases a with
  | event e => exact hread.elim
  | call c => rfl
  | note verbose n => rfl

theorem Activity.reads_of_nil {acts : List Activity} (h : acts = []) : ∀ a ∈ acts, a.Reads :=
  h ▸ List.forall_mem_nil _

theorem Activity.calls_of_reads {acts : List Activity} (h : ∀ a ∈ acts, a.Reads) :
    ReadsOnly (acts.filterMap Activity.call?) := by
  intro c hc
  obtain ⟨a, ha, hac⟩ := List.mem_filterMap.mp hc
  have hread := h a ha
  cases a <;> cases hac
  exact hread

namespace Task

variable {α β : Type} {c : Content} {P Q : Except Error α → Content → List Activity → Prop}
  {p q : Activity → Prop}

/-- Every run on `c` has a result, leaves a content and writes into the journal as `Q` says. -/
def Does (t : Task α) (c : Content) (Q : Except Error α → Content → List Activity → Prop) : Prop :=
  ∀ s : Engine, s.content = c → ∃ acts, s.Did (t s).2 acts ∧ Q (t s).1 (t s).2.content acts

/-- The rows that a result counts for: none after a failure. -/
def rowsOf (rows : α → Nat) : Except Error α → Nat
  | .ok a => rows a
  | .error _ => 0

namespace Does

theorem mono {t : Task α} (ht : Does t c P) (h : ∀ r c' acts, P r c' acts → Q r c' acts) :
    Does t c Q := by
  intro s hs
  obtain ⟨acts, hdid, hP⟩ := ht s hs
  exact ⟨acts, hdid, h _ _ _ hP⟩

/-- A failure ends a sequence; after a success the second part goes on from what the first one
left. -/
theorem bind {t : Task α} {f : α → Task β} {R : Except Error β → Content → List Activity → Prop}
    (ht : Does t c P) (hstop : ∀ x c' acts, P (.error x) c' acts → R (.error x) c' acts)
    (hgo : ∀ a c' acts, P (.ok a) c' acts →
      Does (f a) c' fun r c'' acts' => R r c'' (acts ++ acts')) : Does (t >>= f) c R := by
  intro s hs
  obtain ⟨acts, hdid, hP⟩ := ht s hs
  rcases hr : t s with ⟨x | a, s₁⟩ <;> rw [hr] at hdid hP
  · rw [bind_run_error hr]
    exact ⟨acts, hdid, hstop x _ acts hP⟩
  · obtain ⟨acts', hdid', hR⟩ := hgo a _ acts hP s₁ rfl
    rw [bind_run_ok hr]
    exact ⟨acts ++ acts', hdid.trans hdid', hR⟩

theorem ofExcept {r : Except Error α} (h : Q r c []) : Does (Task.ofExcept r) c Q := by
  rintro s rfl
  exact ⟨[], .refl s, h⟩

theorem pure {a : α} (h : Q (.ok a) c []) : Does (Pure.pure a : Task α) c Q := ofExcept h

theorem emit {e : Event} {Q : Except Error Unit → Content → List Activity → Prop}
    (h : Q (.ok ()) c [.event e]) : Does (Task.emit e) c Q := by
  rintro s rfl
  exact ⟨_, (Engine.Did.refl s).log _, h⟩

theorem note {verbose : Bool} {n : Note} {Q : Except Error Unit → Content → List Activity → Prop}
    (h : Q (.ok ()) c [.note verbose n]) : Does (Task.note verbose n) c Q := by
  rintro s rfl
  exact ⟨_, (Engine.Did.refl s).log _, h⟩

theorem perform {call : Call} {act : Content → α × Content}
    (hstop : ∀ x, Q (.error (.storeUnavailable x)) c [.call call])
    (hgo : Q (.ok (act c).1) (act c).2 [.call call]) : Does (Task.perform call act) c Q := by
  rintro s rfl
  cases hf : s.faults s.journal call with
  | some x =>
    rw [perform_run_error hf]
    exact ⟨_, (Engine.Did.refl s).log _, hstop x⟩
  | none =>
    rw [perform_run_ok hf]
    exact ⟨_, (Engine.Did.refl s).log _, hgo⟩

/-- The finish event tells the rows of the result. -/
theorem spanned {kind : ExecKind} {keyspace : String} {rows : α → Nat} {body : Task α}
    (hb : Does body c Q) : Does (Task.spanned kind keyspace rows body) c fun r c' acts =>
      ∃ inner, acts = .event (.started kind keyspace) :: inner ++
        [.event (.finished kind keyspace (UInt64.ofNat (rowsOf rows r)))] ∧ Q r c' inner := by
  rintro s rfl
  obtain ⟨inner, hdid, hQ⟩ := hb (s.log (.event (.started kind keyspace))) rfl
  have hall := (((Engine.Did.refl s).log (.event (.started kind keyspace))).trans hdid).log
    (.event (.finished kind keyspace (UInt64.ofNat (rowsOf rows
      (body (s.log (.event (.started kind keyspace)))).1))))
  refine ⟨_, ?_, inner, rfl, hQ⟩
  rw [List.nil_append, List.singleton_append] at hall
  unfold Task.spanned
  rcases hr : body (s.log (.event (.started kind keyspace))) with ⟨_ | a, s₁⟩ <;>
    rw [hr] at hall <;> exact hall

end Does

theorem Does.mapM {f : α → Task β} {R : β → List Activity → Prop}
    (l : List α) (hf : ∀ a ∈ l, Does (f a) c fun r c' acts =>
      c' = c ∧ (∀ x ∈ acts, p x) ∧ ∀ b, r = .ok b → R b acts) :
    Does (l.mapM f) c fun r c' acts => c' = c ∧ (∀ x ∈ acts, p x) ∧ ∀ bs, r = .ok bs →
      ∃ parts : List (β × List Activity), (∀ q ∈ parts, R q.1 q.2) ∧ bs = parts.map Prod.fst ∧
        acts = (parts.map Prod.snd).flatten := by
  induction l with
  | nil =>
    rw [List.mapM_nil]
    refine Does.pure ⟨rfl, List.forall_mem_nil _, fun bs hbs => ?_⟩
    exact ⟨[], List.forall_mem_nil _, (Except.ok.inj hbs).symm, rfl⟩
  | cons a l ih =>
    obtain ⟨ha, hl⟩ := List.forall_mem_cons.mp hf
    rw [List.mapM_cons]
    refine ha.bind (fun x _ _ h => ⟨h.1, h.2.1, fun bs hbs => by cases hbs⟩)
      fun b c₁ acts h => ?_
    obtain ⟨rfl, hp, hR⟩ := h
    refine (ih hl).bind (fun x _ _ h => ⟨h.1, List.forall_mem_append.mpr ⟨hp, h.2.1⟩,
      fun bs hbs => by cases hbs⟩) fun bs c₂ acts' h => Does.pure ?_
    obtain ⟨rfl, hp', hbs⟩ := h
    obtain ⟨parts, hparts, rfl, rfl⟩ := hbs bs rfl
    rw [List.append_nil]
    refine ⟨rfl, List.forall_mem_append.mpr ⟨hp, hp'⟩, fun bs' hbs' => ?_⟩
    obtain rfl := Except.ok.inj hbs'
    exact ⟨(b, acts) :: parts, List.forall_mem_cons.mpr ⟨hR b rfl, hparts⟩, rfl, rfl⟩

/-- Everything that a run writes into the journal satisfies `p`. -/
def Logs (p : Activity → Prop) (t : Task α) : Prop :=
  ∀ c, Does t c fun _ _ acts => ∀ a ∈ acts, p a

theorem Does.on {t : Task α} (ht : Does t c P) (hr : Reading t) :
    Does t c fun r c' acts => c' = c ∧ P r c' acts ∧ ∀ a, r = .ok a → t.on c = .ok a := by
  rintro s rfl
  obtain ⟨acts, hdid, hP⟩ := ht s rfl
  exact ⟨acts, hdid, (hr.same s).content, hP, hr.ok s⟩

theorem Does.silent {t : Task α} (hr : Reading t) (hl : Logs (fun _ => False) t) (c : Content) :
    Does t c fun r c' acts => c' = c ∧ acts = [] ∧ ∀ a, r = .ok a → t.on c = .ok a :=
  ((hl c).on hr).mono fun _ _ _ h => ⟨h.1, List.eq_nil_iff_forall_not_mem.mpr h.2.1, h.2.2⟩

namespace Logs

theorem mono {t : Task α} (ht : Logs p t) (h : ∀ a, p a → q a) : Logs q t :=
  fun c => (ht c).mono fun _ _ _ hp a ha => h a (hp a ha)

theorem bind {t : Task α} {f : α → Task β} (ht : Logs p t) (hf : ∀ a, Logs p (f a)) :
    Logs p (t >>= f) := fun c =>
  (ht c).bind (fun _ _ _ h => h) fun a c' _ h => (hf a c').mono fun _ _ _ h' =>
    List.forall_mem_append.mpr ⟨h, h'⟩

theorem ofExcept (r : Except Error α) : Logs p (Task.ofExcept r) :=
  fun _ => Does.ofExcept (List.forall_mem_nil _)

theorem pure (a : α) : Logs p (Pure.pure a : Task α) := ofExcept (.ok a)

theorem emit {e : Event} (h : p (.event e)) : Logs p (Task.emit e) :=
  fun _ => Does.emit (List.forall_mem_singleton.mpr h)

theorem note {verbose : Bool} {n : Note} (h : p (.note verbose n)) :
    Logs p (Task.note verbose n) :=
  fun _ => Does.note (List.forall_mem_singleton.mpr h)

theorem perform {call : Call} {act : Content → α × Content} (h : p (.call call)) :
    Logs p (Task.perform call act) := fun _ =>
  have hcall := List.forall_mem_singleton.mpr h
  Does.perform (fun _ => hcall) hcall

end Logs

end Task

end IndexedStore
