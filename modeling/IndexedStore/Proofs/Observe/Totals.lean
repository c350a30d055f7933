import IndexedStore.Observe.Recorder
import IndexedStore.Proofs.Collection.Dict
import IndexedStore.Proofs.Number.Saturating

/-! # What a report adds up to

A counter that stops at the largest word after each event stands where the sum of all of them
stops. Main statement: a report is determined by the events since the last reset as a multiset,
so that their order leaves no trace.
-/
namespace IndexedStore

open Number

inductive Counter where
  | calls (kind : ExecKind) (keyspace : String)
  | rowsLoaded (keyspace : String)
  | rowsDeleted (keyspace : String)
  | indexInserts
  | indexRemoves
  | lookups (kind : LookupKind)
  | misses

namespace Event

/-- What the event adds to a counter. The rows of a save are not counted, those of a flush are
counted as deleted. -/
def adds : Event → Counter → Nat
  | started kind k, .calls kind' k' => if k = k' ∧ kind = kind' then 1 else 0
  | finished kind k rows, .rowsLoaded k' => if k = k' ∧ kind = .load then rows.toNat else 0
  | finished kind k rows, .rowsDeleted k' =>
    if k = k' ∧ (kind = .delete ∨ kind = .flush) then rows.toNat else 0
  | indexed _ inserts _, .indexInserts => inserts.toNat
  | indexed _ _ removes, .indexRemoves => removes.toNat
  | lookedUp kind _ _, .lookups kind' => if kind = kind' then 1 else 0
  | missed _ _, .misses => 1
  | _, _ => 0

/-- The event is the start or the finish of an operation on the keyspace. -/
def Bounds (keyspace : String) : Event → Prop
  | started _ k => k = keyspace
  | finished _ k _ => k = keyspace
  | _ => False

end Event

namespace KeyspaceCounters

def calls (c : KeyspaceCounters) : ExecKind → UInt64
  | .load => c.loadCalls
  | .save => c.saveCalls
  | .delete => c.deleteCalls
  | .flush => c.flushCalls

variable (c : KeyspaceCounters) (kind kind' : ExecKind) (rows : UInt64)

theorem calls_start :
    Grows (c.calls kind') (if kind = kind' then 1 else 0) ((c.start kind).calls kind') := by
  by_cases h : kind = kind'
  · subst h
    rw [if_pos rfl]
    cases kind <;> exact grows_satAdd _ 1
  · rw [if_neg h]
    cases kind <;> cases kind' <;> first | contradiction | exact .refl _

theorem rowsLoaded_start : (c.start kind).rowsLoaded = c.rowsLoaded := by cases kind <;> rfl

theorem rowsDeleted_start : (c.start kind).rowsDeleted = c.rowsDeleted := by cases kind <;> rfl

theorem calls_finish : (c.finish rows kind).calls kind' = c.calls kind' := by cases kind <;> rfl

theorem rowsLoaded_finish :
    Grows c.rowsLoaded (if kind = .load then rows.toNat else 0)
      (c.finish rows kind).rowsLoaded := by
  cases kind with
  | load => exact grows_satAdd _ _
  | _ => exact .refl _

theorem rowsDeleted_finish :
    Grows c.rowsDeleted (if kind = .delete ∨ kind = .flush then rows.toNat else 0)
      (c.finish rows kind).rowsDeleted := by
  cases kind with
  | delete => exact grows_satAdd _ _
  | flush => exact grows_satAdd _ _
  | _ => exact .refl _

theorem ext_counts {c c' : KeyspaceCounters} (hcalls : ∀ kind, c.calls kind = c'.calls kind)
    (hloaded : c.rowsLoaded = c'.rowsLoaded) (hdeleted : c.rowsDeleted = c'.rowsDeleted) :
    c = c' := by
  obtain ⟨l, s, d, f, lr, dr⟩ := c
  obtain ⟨l', s', d', f', lr', dr'⟩ := c'
  obtain rfl : l = l' := hcalls .load
  obtain rfl : s = s' := hcalls .save
  obtain rfl : d = d' := hcalls .delete
  obtain rfl : f = f' := hcalls .flush
  obtain rfl : lr = lr' := hloaded
  obtain rfl : dr = dr' := hdeleted
  rfl

end KeyspaceCounters

namespace Report

def lookups (r : Report) : LookupKind → UInt64
  | .equality => r.equalityLookups
  | .near => r.nearLookups
  | .members => r.memberLookups

def count (r : Report) : Counter → UInt64
  | .calls kind k => (r.keyspace k).calls kind
  | .rowsLoaded k => (r.keyspace k).rowsLoaded
  | .rowsDeleted k => (r.keyspace k).rowsDeleted
  | .indexInserts => r.indexInserts
  | .indexRemoves => r.indexRemoves
  | .lookups kind => r.lookups kind
  | .misses => r.referenceMisses

theorem keyspace_adjust (r : Report) (name : String) (f : KeyspaceCounters → KeyspaceCounters)
    (k : String) :
    (r.adjust name f).keyspace k = if name = k then f (r.keyspace k) else r.keyspace k := by
  by_cases h : name = k <;> simp [keyspace, adjust, Dict.get?_insert, h]

section Adjust

variable {f : KeyspaceCounters → KeyspaceCounters} {g : KeyspaceCounters → UInt64} {n : Nat}

/-- A counter of one keyspace grows by what the change adds there, no other does. -/
theorem grows_adjust (h : ∀ c, Grows (g c) n (g (f c))) (r : Report) (name k : String) :
    Grows (g (r.keyspace k)) (if name = k then n else 0) (g ((r.adjust name f).keyspace k)) := by
  rw [keyspace_adjust]
  by_cases hk : name = k
  · simpa [hk] using h (r.keyspace k)
  · simpa [hk] using Grows.refl _

theorem grows_adjust_of_same (h : ∀ c, g (f c) = g c) (r : Report) (name k : String) :
    Grows (g (r.keyspace k)) 0 (g ((r.adjust name f).keyspace k)) := by
  have hsame : ∀ c, Grows (g c) 0 (g (f c)) := fun c => h c ▸ .refl _
  simpa using grows_adjust hsame r name k

end Adjust

theorem grows_lookups (r : Report) (kind kind' : LookupKind) (k : String) (hits : UInt64) :
    Grows (r.lookups kind') (if kind = kind' then 1 else 0)
      ((r.add (.lookedUp kind k hits)).lookups kind') := by
  by_cases h : kind = kind'
  · subst h
    rw [if_pos rfl]
    cases kind <;> exact grows_satAdd _ 1
  · rw [if_neg h]
    cases kind <;> cases kind' <;> first | contradiction | exact .refl _

theorem grows_count_add (r : Report) (e : Event) (c : Counter) :
    Grows (r.count c) (e.adds c) ((r.add e).count c) := by
  cases e with
  | started kind k =>
    cases c with
    | calls kind' k' =>
      rw [Event.adds, ite_and]
      exact grows_adjust (g := fun c => c.calls kind') (fun c => c.calls_start kind kind') r k k'
    | rowsLoaded k' => exact grows_adjust_of_same (fun c => c.rowsLoaded_start kind) r k k'
    | rowsDeleted k' => exact grows_adjust_of_same (fun c => c.rowsDeleted_start kind) r k k'
    | _ => exact .refl _
  | finished kind k rows =>
    cases c with
    | calls kind' k' =>
      exact grows_adjust_of_same (g := fun c => c.calls kind')
        (fun c => c.calls_finish kind kind' rows) r k k'
    | rowsLoaded k' =>
      rw [Event.adds, ite_and]
      exact grows_adjust (fun c => c.rowsLoaded_finish kind rows) r k k'
    | rowsDeleted k' =>
      rw [Event.adds, ite_and]
      exact grows_adjust (fun c => c.rowsDeleted_finish kind rows) r k k'
    | _ => exact .refl _
  | indexed k inserts removes =>
    cases c with
    | indexInserts => exact grows_satAdd _ _
    | indexRemoves => exact grows_satAdd _ _
    | _ => exact .refl _
  | lookedUp kind k hits =>
    cases c with
    | lookups kind' => exact r.grows_lookups kind kind' k hits
    | _ => cases kind <;> exact .refl _
  | missed k field =>
    cases c with
    | misses => exact grows_satAdd _ 1
    | _ => exact .refl _

theorem grows_count_foldl (events : List Event) (r : Report) (c : Counter) :
    Grows (r.count c) (events.map fun e => e.adds c).sum ((events.foldl add r).count c) := by
  induction events generalizing r with
  | nil => exact .refl _
  | cons e events ih => exact (r.grows_count_add e c).trans (ih (r.add e))

/-- Starts and finishes list their keyspace, other events list none. -/
theorem contains_add (r : Report) (e : Event) (k : String) :
    (r.add e).keyspaces.contains k = true ↔ r.keyspaces.contains k = true ∨ e.Bounds k := by
  cases e with
  | started kind name => simp [add, adjust, Dict.contains_insert, Event.Bounds, or_comm]
  | finished kind name rows => simp [add, adjust, Dict.contains_insert, Event.Bounds, or_comm]
  | lookedUp kind name hits => cases kind <;> simp [add, Event.Bounds]
  | _ => simp [add, Event.Bounds]

theorem contains_foldl (events : List Event) (r : Report) (k : String) :
    (events.foldl add r).keyspaces.contains k = true ↔
      r.keyspaces.contains k = true ∨ ∃ e ∈ events, e.Bounds k := by
  induction events generalizing r with
  | nil => simp
  | cons e events ih => simp [ih, contains_add, or_assoc]

/-- The report says what the events add up to: each counter has the sum, as far as a word goes,
and the keyspaces are those on which an operation started or finished. -/
structure Totals (r : Report) (events : Multiset Event) : Prop where
  counts : ∀ c, (r.count c).toNat = min (2 ^ 64 - 1) (events.map fun e => e.adds c).sum
  listed : ∀ k, r.keyspaces.contains k = true ↔ ∃ e ∈ events, e.Bounds k

theorem totals_ofEvents (events : List Event) : (ofEvents events).Totals events where
  counts c := by
    have hzero : (zero.count c).toNat = 0 := by
      cases c with
      | calls kind k => cases kind <;> rfl
      | lookups kind => cases kind <;> rfl
      | _ => rfl
    have hgrows : Grows _ _ ((ofEvents events).count c) := grows_count_foldl events zero c
    rw [Grows, hzero, Nat.zero_add, Nat.min_comm] at hgrows
    simpa using hgrows
  listed k := by
    rw [ofEvents, contains_foldl]
    simp [zero, Dict.contains, Dict.get?_empty]

theorem Totals.unique {r r' : Report} {events : Multiset Event} (h : r.Totals events)
    (h' : r'.Totals events) : r = r' := by
  have hcount : ∀ c, r.count c = r'.count c := fun c =>
    UInt64.toNat_inj.mp ((h.counts c).trans (h'.counts c).symm)
  have hkeyspace : ∀ k, r.keyspace k = r'.keyspace k := fun k =>
    KeyspaceCounters.ext_counts (fun kind => hcount (.calls kind k)) (hcount (.rowsLoaded k))
      (hcount (.rowsDeleted k))
  have hkeyspaces : r.keyspaces = r'.keyspaces := by
    refine Dict.ext_get? fun k => ?_
    have hlisted := (h.listed k).trans (h'.listed k).symm
    have hk := hkeyspace k
    simp only [keyspace, Dict.contains] at hk hlisted
    cases hg : r.keyspaces.get? k <;> cases hg' : r'.keyspaces.get? k <;> simp_all
  obtain ⟨d, a, b, e, n, m, f⟩ := r
  obtain ⟨d', a', b', e', n', m', f'⟩ := r'
  obtain rfl : d = d' := hkeyspaces
  obtain rfl : a = a' := hcount .indexInserts
  obtain rfl : b = b' := hcount .indexRemoves
  obtain rfl : e = e' := hcount (.lookups .equality)
  obtain rfl : n = n' := hcount (.lookups .near)
  obtain rfl : m = m' := hcount (.lookups .members)
  obtain rfl : f = f' := hcount .misses
  rfl

end Report

namespace Signal

/-- The events behind the last reset. -/
def latest (signals : List Signal) : List Event :=
  ((signals.splitOn .reset).getLastD []).filterMap event?

theorem foldl_hear_of_not_mem (signals : List Signal) (h : reset ∉ signals) (r : Report) :
    signals.foldl Report.hear r = (signals.filterMap event?).foldl Report.add r := by
  induction signals generalizing r with
  | nil => rfl
  | cons s signals ih =>
    rw [List.mem_cons, not_or] at h
    cases s with
    | reset => exact absurd rfl h.1
    | event e => exact ih h.2 (r.add e)

/-- Only the events behind the last reset are reported. -/
theorem ofSignals_eq (signals : List Signal) :
    Report.ofSignals signals = Report.ofEvents (latest signals) := by
  by_cases h : reset ∈ signals
  · obtain ⟨after, before, hsplit, hafter⟩ := List.eq_append_cons_of_mem (List.mem_reverse.mpr h)
    have hcut : signals = before.reverse ++ reset :: after.reverse := by
      rw [← List.reverse_inj, hsplit]
      simp
    have hlatest : reset ∉ after.reverse := by simpa using hafter
    have hblocks : (signals.splitOn reset).getLastD [] = after.reverse := by
      rw [hcut, List.splitOn_append_cons_self, List.splitOn_eq_singleton hlatest]
      simp
    rw [latest, hblocks, Report.ofSignals, hcut, List.foldl_append, List.foldl_cons]
    exact foldl_hear_of_not_mem _ hlatest _
  · rw [latest, List.splitOn_eq_singleton h]
    exact foldl_hear_of_not_mem signals h _

theorem getLastD_perm {blocks blocks' : List (List Signal)}
    (h : List.Forall₂ List.Perm blocks blocks') :
    (blocks.getLastD []).Perm (blocks'.getLastD []) := by
  induction h with
  | nil => exact .nil
  | cons h rest ih =>
    cases rest with
    | nil => exact h
    | cons _ _ => exact ih

/-- Rows that are rearranged between their resets have the same events behind the last one. -/
theorem latest_perm {signals signals' : List Signal}
    (h : List.Forall₂ List.Perm (signals.splitOn reset) (signals'.splitOn reset)) :
    (latest signals).Perm (latest signals') :=
  (getLastD_perm h).filterMap event?

/-- For every row of events and resets: the report is the one that the events since the last
reset add up to as a multiset, each counter to the sum or to the largest word, and they add up to
no other. So rows that are rearranged between their resets have the same report. -/
theorem report_totals (signals : List Signal) :
    (Report.ofSignals signals).Totals (latest signals) ∧
    (∀ r : Report, r.Totals (latest signals) → r = Report.ofSignals signals) ∧
    ∀ signals', List.Forall₂ List.Perm (signals.splitOn reset) (signals'.splitOn reset) →
      Report.ofSignals signals' = Report.ofSignals signals := by
  have htotals : ∀ signals, (Report.ofSignals signals).Totals (latest signals) := fun signals => by
    rw [ofSignals_eq]
    exact Report.totals_ofEvents _
  refine ⟨htotals signals, fun r hr => hr.unique (htotals signals), fun signals' h => ?_⟩
  have hsame : (latest signals' : Multiset Event) = latest signals :=
    Multiset.coe_eq_coe.mpr (latest_perm h).symm
  exact (hsame ▸ htotals signals').unique (htotals signals)

/-- Two reads that together go beyond a word may finish in either order behind a reset, and what
was reported before it is gone. -/
theorem either_read_first :
    let first : Event := .finished .load "k" (2 ^ 64 - 1)
    let second : Event := .finished .load "k" 3
    let signals := [.event (.missed "k" "f"), .reset, .event first, .event second]
    let signals' := [.event (.missed "k" "f"), .reset, .event second, .event first]
    List.Forall₂ List.Perm (signals.splitOn reset) (signals'.splitOn reset) ∧
      Report.ofSignals signals' = Report.ofSignals signals ∧
      (Report.ofSignals signals).count (.rowsLoaded "k") = 2 ^ 64 - 1 := by
  intro first second signals signals'
  have h : List.Forall₂ List.Perm (signals.splitOn reset) (signals'.splitOn reset) :=
    .cons (.refl _) (.cons (.swap _ _ _) .nil)
  exact ⟨h, (report_totals signals).2.2 signals' h, by decide +kernel⟩

end Signal

end IndexedStore
