import IndexedStore.Proofs.Storage.Reading

/-! # The calls of a task

The journal lists the calls that a task makes. `Makes P t` says that the calls of `t`, the
latest first, satisfy `P`, and that a call which fails ends the task with its failure. Tasks in
sequence make their calls one after another, so that a write at the end of reads stays the
last call.
-/
namespace IndexedStore

def CallKind.mutates : CallKind → Bool
  | .get | .scan => false
  | .put | .delete | .batch => true

def ReadsOnly (calls : List Call) : Prop := ∀ c ∈ calls, c.kind.mutates = false

/-- Calls, the latest first, of which only the latest may change anything. -/
def WritesLast (calls : List Call) : Prop := ReadsOnly calls.tail

theorem ReadsOnly.nil : ReadsOnly [] := nofun

theorem ReadsOnly.append {l l' : List Call} (h : ReadsOnly l) (h' : ReadsOnly l') :
    ReadsOnly (l' ++ l) := by
  intro c hc
  rcases List.mem_append.mp hc with hc | hc
  · exact h' c hc
  · exact h c hc

theorem ReadsOnly.writesLast {l : List Call} (h : ReadsOnly l) : WritesLast l :=
  fun c hc => h c (List.mem_of_mem_tail hc)

theorem ReadsOnly.append_writesLast {l l' : List Call} (h : ReadsOnly l) (h' : WritesLast l') :
    WritesLast (l' ++ l) := by
  cases l' with
  | nil => exact h.writesLast
  | cons c l' => exact h.append h'

namespace Task

variable {α β : Type} {P Q R : List Call → Prop}

/-- The calls of a task, the latest first, satisfy `P`. A call that fails ends the task with
its failure. -/
structure Makes (P : List Call → Prop) (t : Task α) : Prop where
  faults : ∀ s, (t s).2.faults = s.faults
  calls : ∀ s, ∃ new, (t s).2.journal = new ++ s.journal ∧ P (new.filterMap Activity.call?)
  surfaces : ∀ s c before e, .call c :: before <:+ (t s).2.journal → s.journal <:+ before →
    s.faults before c = some e → (t s).1 = .error (.storeUnavailable e)

theorem calls_spanned {kind : ExecKind} {keyspace : String} {rows : α → Nat} {body : Task α}
    {s : Engine} (h : ∃ new, (body (s.log (.event (.started kind keyspace)))).2.journal =
      new ++ .event (.started kind keyspace) :: s.journal ∧
        P (new.filterMap Activity.call?)) :
    ∃ new, (Task.spanned kind keyspace rows body s).2.journal = new ++ s.journal ∧
      P (new.filterMap Activity.call?) := by
  obtain ⟨new, hnew, hP⟩ := h
  obtain ⟨finish, hfinish⟩ : ∃ finish, (Task.spanned kind keyspace rows body s).2 =
      (body (s.log (.event (.started kind keyspace)))).2.log (.event finish) := ⟨_, rfl⟩
  refine ⟨.event finish :: (new ++ [.event (.started kind keyspace)]), ?_, ?_⟩
  · rw [hfinish, Engine.log, hnew, List.cons_append, List.append_assoc]
    rfl
  · simp only [List.filterMap_cons, List.filterMap_append, List.filterMap_nil,
      Activity.call?, List.append_nil]
    exact hP

namespace Makes

theorem suffix {t : Task α} (ht : Makes P t) (s : Engine) : s.journal <:+ (t s).2.journal := by
  obtain ⟨new, hnew, -⟩ := ht.calls s
  rw [hnew]
  exact List.suffix_append new s.journal

theorem mono {t : Task α} (ht : Makes P t) (h : ∀ l, P l → Q l) : Makes Q t where
  faults := ht.faults
  calls s := by
    obtain ⟨new, hnew, hP⟩ := ht.calls s
    exact ⟨new, hnew, h _ hP⟩
  surfaces := ht.surfaces

theorem bind {t : Task α} {f : α → Task β} (ht : Makes P t) (hf : ∀ a, Makes Q (f a))
    (hstop : ∀ l, P l → R l) (hgo : ∀ l l', P l → Q l' → R (l' ++ l)) : Makes R (t >>= f) where
  faults s := by
    rcases hr : t s with ⟨e | a, s₁⟩
    · rw [bind_run_error hr]
      exact (congrArg (fun r => r.2.faults) hr).symm.trans (ht.faults s)
    · rw [bind_run_ok hr, (hf a).faults s₁]
      exact (congrArg (fun r => r.2.faults) hr).symm.trans (ht.faults s)
  calls s := by
    obtain ⟨new, hnew, hP⟩ := ht.calls s
    rcases hr : t s with ⟨e | a, s₁⟩ <;> rw [hr] at hnew
    · rw [bind_run_error hr]
      exact ⟨new, hnew, hstop _ hP⟩
    · obtain ⟨new', hnew', hQ⟩ := (hf a).calls s₁
      rw [bind_run_ok hr]
      refine ⟨new' ++ new, ?_, ?_⟩
      · rw [hnew', hnew, List.append_assoc]
      · rw [List.filterMap_append]
        exact hgo _ _ hP hQ
  surfaces s c before e hc hbefore hfail := by
    have hfirst := ht.surfaces s c before e
    rcases hr : t s with ⟨e' | a, s₁⟩ <;> rw [hr] at hfirst
    · rw [bind_run_error hr] at hc ⊢
      rw [Except.error.inj (hfirst hc hbefore hfail)]
    · rw [bind_run_ok hr] at hc ⊢
      have hfaults := (congrArg (fun r => r.2.faults) hr).symm.trans (ht.faults s)
      rcases List.suffix_or_suffix_of_suffix hc ((hf a).suffix s₁) with hs | hs
      · cases hfirst hs hbefore hfail
      · rcases List.suffix_cons_iff.mp hs with hs | hs
        · cases hfirst (hs ▸ List.suffix_refl _) hbefore hfail
        · refine (hf a).surfaces s₁ c before e hc hs ?_
          rw [← hfail]
          exact congrFun (congrFun hfaults before) c

theorem reads_bind {t : Task α} {f : α → Task β} (ht : Makes ReadsOnly t)
    (hf : ∀ a, Makes ReadsOnly (f a)) : Makes ReadsOnly (t >>= f) :=
  ht.bind hf (fun _ h => h) fun _ _ => ReadsOnly.append

/-- Reads come before a write. -/
theorem reads_bind_writes {t : Task α} {f : α → Task β} (ht : Makes ReadsOnly t)
    (hf : ∀ a, Makes WritesLast (f a)) : Makes WritesLast (t >>= f) :=
  ht.bind hf (fun _ => ReadsOnly.writesLast) fun _ _ => ReadsOnly.append_writesLast

theorem writes_bind {t : Task α} {f : α → Task β} (ht : Makes WritesLast t)
    (hf : ∀ a, Makes (· = []) (f a)) : Makes WritesLast (t >>= f) :=
  ht.bind hf (fun _ h => h) fun _ _ h h' => by rwa [h', List.nil_append]

theorem none_bind {t : Task α} {f : α → Task β} (ht : Makes (· = []) t)
    (hf : ∀ a, Makes (· = []) (f a)) : Makes (· = []) (t >>= f) :=
  ht.bind hf (fun _ h => h) fun _ _ h h' => by rw [h, h']; rfl

theorem reads {t : Task α} (ht : Makes (· = []) t) : Makes ReadsOnly t :=
  ht.mono fun _ h => h ▸ ReadsOnly.nil

theorem writes {t : Task α} (ht : Makes ReadsOnly t) : Makes WritesLast t :=
  ht.mono fun _ => ReadsOnly.writesLast

theorem of_added {t : Task α} (hfaults : ∀ s, (t s).2.faults = s.faults)
    (hadded : ∀ s, ∃ new, (t s).2.journal = new ++ s.journal ∧ ∀ c, .call c ∉ new) :
    Makes (· = []) t where
  faults := hfaults
  calls s := by
    obtain ⟨new, hnew, hno⟩ := hadded s
    refine ⟨new, hnew, List.filterMap_eq_nil_iff.mpr fun a ha => ?_⟩
    cases a with
    | call c => exact absurd ha (hno c)
    | event e => rfl
    | note verbose n => rfl
  surfaces s c before e hc hbefore hfail := by
    obtain ⟨new, hnew, hno⟩ := hadded s
    obtain ⟨after, hafter⟩ := hc
    obtain ⟨between, rfl⟩ := hbefore
    rw [hnew, ← List.cons_append, ← List.append_assoc] at hafter
    have hmem : .call c ∈ after ++ .call c :: between := by simp
    exact absurd (List.append_cancel_right hafter ▸ hmem) (hno c)

theorem ofExcept (r : Except Error α) : Makes (· = []) (Task.ofExcept r) :=
  of_added (fun _ => rfl) fun _ => ⟨[], rfl, fun _ => List.not_mem_nil⟩

theorem pure (a : α) : Makes (· = []) (Pure.pure a : Task α) :=
  of_added (fun _ => rfl) fun _ => ⟨[], rfl, fun _ => List.not_mem_nil⟩

theorem emit (e : Event) : Makes (· = []) (Task.emit e) :=
  of_added (fun _ => rfl) fun _ => ⟨[.event e], rfl, fun c => by simp⟩

theorem note (verbose : Bool) (n : Note) : Makes (· = []) (Task.note verbose n) :=
  of_added (fun _ => rfl) fun _ => ⟨[.note verbose n], rfl, fun c => by simp⟩

theorem perform {call : Call} {act : Content → α × Content} :
    Makes (· = [call]) (Task.perform call act) where
  faults s := by
    unfold Task.perform
    cases s.faults s.journal call <;> rfl
  calls s := by
    refine ⟨[.call call], ?_, rfl⟩
    unfold Task.perform
    cases s.faults s.journal call <;> rfl
  surfaces s c before e hc hbefore hfail := by
    have hjournal : (Task.perform call act s).2.journal = .call call :: s.journal := by
      unfold Task.perform
      cases s.faults s.journal call <;> rfl
    rw [hjournal] at hc
    have hlen := hc.length_le
    have hle := hbefore.length_le
    obtain rfl : s.journal = before := hbefore.eq_of_length (by simp at hlen; omega)
    obtain rfl : c = call := by simpa using hc.eq_of_length rfl
    unfold Task.perform
    rw [hfail]

theorem perform_reads {call : Call} {act : Content → α × Content}
    (h : call.kind.mutates = false) : Makes ReadsOnly (Task.perform call act) :=
  perform.mono fun _ hl c hc => by
    rw [hl, List.mem_singleton] at hc
    rw [hc]
    exact h

theorem get (key : String) : Makes ReadsOnly (Task.get key) := perform_reads rfl

theorem scan (start : String) : Makes ReadsOnly (Task.scan start) := perform_reads rfl

theorem batch (writes : List Write) : Makes WritesLast (Task.batch writes) :=
  perform.mono fun _ h => by
    rw [h]
    exact ReadsOnly.nil

theorem spanned {kind : ExecKind} {keyspace : String} {rows : α → Nat} {body : Task α}
    (hb : Makes P body) : Makes P (Task.spanned kind keyspace rows body) where
  faults s := hb.faults _
  calls s := calls_spanned (hb.calls _)
  surfaces s c before e hc hbefore hfail := by
    have hlog : (s.log (.event (.started kind keyspace))).journal =
      .event (.started kind keyspace) :: s.journal := rfl
    have hstart := hb.suffix (s.log (.event (.started kind keyspace)))
    rcases List.suffix_cons_iff.mp hc with hc | hc
    · cases hc
    · have hsurfaces := hb.surfaces (s.log (.event (.started kind keyspace))) c before e hc
      refine hsurfaces ?_ hfail
      rcases List.suffix_or_suffix_of_suffix hc hstart with hs | hs
      · rw [hlog] at hs
        have hlen := hs.length_le
        have hle := hbefore.length_le
        simp only [List.length_cons] at hlen
        cases hs.eq_of_length (by simp only [List.length_cons]; omega)
      · rcases List.suffix_cons_iff.mp hs with hs | hs
        · cases hs
        · exact hs

end Makes

end Task

end IndexedStore
