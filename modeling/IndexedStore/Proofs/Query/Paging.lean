import IndexedStore.Proofs.Query.Execute
import IndexedStore.Proofs.Query.Page

/-! # Walking through the pages of a result

A page of a query is a window of its unpaged result. The offset, the test for a next page and the
number of pages are computed apart from each other and with positions that stop at the largest
word. Main statement: they agree, so that the walk from page to page ends after all pages and
gives every item once.
-/
namespace IndexedStore

namespace Database

/-- The pages of a query from the requested one on, up to the one that has no next. -/
inductive Walk (db : Database) (q : Query) : Engine → PageRequest → List (Page Entity) → Prop where
  | last {s s' : Engine} {r : PageRequest} {p : Page Entity}
      (page : db.execute (q.withPage r) s = (.ok p, s')) (stops : p.nextRequest? = none) :
      Walk db q s r [p]
  | step {s s' : Engine} {r r' : PageRequest} {p : Page Entity} {rest : List (Page Entity)}
      (page : db.execute (q.withPage r) s = (.ok p, s')) (goes : p.nextRequest? = some r')
      (others : Walk db q s' r' rest) : Walk db q s r (p :: rest)

theorem Walk.unique {db : Database} {q : Query} {s : Engine} {r : PageRequest}
    {pages pages' : List (Page Entity)} (h : db.Walk q s r pages) (h' : db.Walk q s r pages') :
    pages' = pages := by
  induction h generalizing pages' with
  | last page stops =>
    cases h' with
    | last page' _ =>
      cases page.symm.trans page'
      rfl
    | step page' goes _ =>
      cases page.symm.trans page'
      cases stops.symm.trans goes
  | step page goes _ ih =>
    cases h' with
    | last page' stops =>
      cases page.symm.trans page'
      cases stops.symm.trans goes
    | step page' goes' others =>
      cases page.symm.trans page'
      cases goes.symm.trans goes'
      rw [ih others]

/-- The walk over the pages of a result that fills `n + 1` of them, from the page `i` on. -/
theorem walk_windows {db : Database} {q : Query} {c : Content} {u : Page Entity} {size : UInt64}
    (hpage : ∀ i, (db.execute (q.withPage ⟨i, size⟩)).on c = .ok (u.window ⟨i, size⟩)) {n : Nat}
    (hn : n + 1 < 2 ^ 64) (hgoes : ∀ i, i < n → (i + 1) * size.toNat < u.total.toNat)
    (hstops : u.total.toNat ≤ (n + 1) * size.toNat) {k i : Nat} {s : Engine} (hi : i + k = n)
    (hs : s.content = c) (hhealthy : s.faults = Faults.none) :
    db.Walk q s ⟨UInt64.ofNat i, size⟩
      ((List.range' i (k + 1)).map fun j => u.window ⟨UInt64.ofNat j, size⟩) := by
  induction k generalizing i s with
  | zero =>
    obtain rfl : i = n := hi
    obtain ⟨s', hrun, -⟩ := (db.reading_execute (q.withPage ⟨UInt64.ofNat i, size⟩)).run_healthy
      hhealthy
    rw [hs, hpage] at hrun
    refine .last hrun ((Page.nextRequest?_eq_none rfl).mpr ?_)
    rw [UInt64.toNat_ofNat', Nat.mod_eq_of_lt (by omega)]
    exact hstops
  | succ k ih =>
    obtain ⟨s', hrun, hsame⟩ := (db.reading_execute
      (q.withPage ⟨UInt64.ofNat i, size⟩)).run_healthy hhealthy
    rw [hs, hpage] at hrun
    have hnext : (u.window ⟨UInt64.ofNat i, size⟩).nextRequest? =
        some ⟨UInt64.ofNat (i + 1), size⟩ := by
      rw [← PageRequest.next_ofNat (by omega)]
      refine Page.nextRequest?_of_lt rfl ?_
      rw [UInt64.toNat_ofNat', Nat.mod_eq_of_lt (by omega)]
      exact hgoes i (by omega)
    exact .step hrun hnext (ih (by omega) (hsame.content.trans hs) (hsame.faults.trans hhealthy))

end Database

theorem Schema.plan_withPage {s : Schema} {q : Query} {p : Plan} (hp : s.plan q = .ok p)
    {r : PageRequest} (hr : r.size ≠ 0) :
    s.plan (q.withPage r) = .ok { p with page := some r } := by
  unfold plan at hp ⊢
  obtain ⟨m, hm, hp⟩ := Task.except_bind_eq_ok hp
  split at hp
  · cases hp
  · obtain ⟨u, hcheck, hp⟩ := Task.except_bind_eq_ok hp
    cases hp
    show (s.model q.keyspace >>= _) = _
    rw [hm]
    simp only [Query.withPage, Option.any_some, hr, decide_false]
    show (q.predicate.forM (Predicate.check m) >>= _) = _
    rw [hcheck]
    rfl

namespace Consistent

variable {c : Content} {d : Entities} {db : Database} {q : Query} {u : Page Entity}

theorem unpaged_result (h : Consistent c d) (hb : c.Bounded) (hq : q.page = none)
    (hu : (db.execute q).on c = .ok u) :
    ∃ p, db.schema.plan q = .ok p ∧ u.total = UInt64.ofNat u.items.length ∧
      (d.answers c q).length = u.items.length ∧
        List.Forall₂ (Fetches c p.model) (d.answers c q) u.items := by
  cases hp : db.schema.plan q with
  | error x =>
    rw [Database.execute, Task.on, Task.bind_run_error (by rw [hp]; rfl)] at hu
    cases hu
  | ok p =>
    obtain ⟨-, htotal, hitems⟩ := (h.on_execute_eq_ok hb hp).mp hu
    rw [Query.sliced, hq] at hitems
    have hlength := List.Forall₂.length_eq hitems
    exact ⟨p, rfl, hlength ▸ htotal, hlength, hitems⟩

theorem on_execute_withPage (h : Consistent c d) (hb : c.Bounded) (hq : q.page = none)
    (hu : (db.execute q).on c = .ok u) {r : PageRequest} (hr : r.size ≠ 0) :
    (db.execute (q.withPage r)).on c = .ok (u.window r) := by
  obtain ⟨p, hp, htotal, hlength, hitems⟩ := h.unpaged_result hb hq hu
  refine (h.on_execute_eq_ok hb (Schema.plan_withPage hp hr)).mpr ⟨rfl, ?_, ?_⟩
  · rw [Page.window, htotal, ← hlength]
    rfl
  · exact List.forall₂_take _ (List.forall₂_drop _ hitems)

end Consistent

/-- After every history, whatever schemas it went through, take a query that is answered as a
whole on a healthy backing store, with no more items than a word counts. For every page size but
zero there is one walk from the first page on. It has as many pages as there are, or one when
there are none, which all give the same total; all but the last are full, and together they hold
the items of the whole answer in order. A page past the last one is empty and has no next. -/
theorem pages_cover_result (faults : Faults) (supply : IdSupply) (journal : Journal)
    (history : List (Database × Op)) :
    let t := (Tracked.fresh faults supply journal).replay history
    ∀ (db : Database) (q : Query) (u : Page Entity) (size : UInt64) (s : Engine),
      s.content = t.engine.content → s.faults = Faults.none → q.page = none →
      (db.execute q s).1 = .ok u → u.items.length < 2 ^ 64 → size ≠ 0 →
      (∃ pages, db.Walk q s (PageRequest.first size) pages ∧
        (∀ pages', db.Walk q s (PageRequest.first size) pages' → pages' = pages) ∧
        (∀ p ∈ pages, p.total = u.total ∧ pages.length = max 1 p.totalPages.toNat) ∧
        (∀ p ∈ pages.dropLast, p.items.length = size.toNat) ∧
        pages.flatMap Page.items = u.items) ∧
      ∀ i, ∃ p, (db.execute (q.withPage ⟨i, size⟩) s).1 = .ok p ∧ p.total = u.total ∧
        (p.totalPages ≤ i → p.items = [] ∧ p.nextRequest? = none) := by
  intro t db q u size s hs hhealthy hq hu hlt hsize
  obtain ⟨hc, hb⟩ := Tracked.stands_replay faults supply journal history hs
  rw [(db.reading_execute q).healthy s hhealthy] at hu
  obtain ⟨-, -, htotal, -, -⟩ := hc.unpaged_result hb hq hu
  have hcount : u.total.toNat = u.items.length := by
    rw [htotal, UInt64.toNat_ofNat', Nat.mod_eq_of_lt hlt]
  have hpage (i : UInt64) := hc.on_execute_withPage hb hq hu (r := ⟨i, size⟩) hsize
  refine ⟨?_, fun i => ⟨u.window ⟨i, size⟩, ?_, rfl, Page.window_of_past hlt hcount hsize⟩⟩
  · obtain ⟨n, hn, hword, hstops, hgoes⟩ := u.exists_count hsize
    have hwalk : db.Walk q s (.first size) (u.windows size (n + 1)) := by
      rw [Page.windows, List.range_eq_range']
      exact Database.walk_windows hpage hword hgoes hstops (Nat.zero_add n) rfl hhealthy
    refine ⟨u.windows size (n + 1), hwalk, fun pages' h => hwalk.unique h, ?_, ?_, ?_⟩
    · intro p hp
      obtain ⟨i, -, rfl⟩ := List.mem_map.mp hp
      rw [Page.windows, List.length_map, List.length_range]
      exact ⟨rfl, hn⟩
    · intro p hp
      rw [Page.windows_succ, List.dropLast_concat] at hp
      refine Page.length_of_mem_windows hlt (by omega) ?_ hp
      cases n with
      | zero => simp
      | succ n => exact hcount ▸ Nat.le_of_lt (hgoes n (Nat.lt_succ_self n))
    · exact Page.flatMap_items_windows hlt hword (hcount ▸ hstops)
  · rw [(db.reading_execute _).healthy s hhealthy, hpage]

/-- Three entities on pages of two. -/
theorem pages_of_three :
    let db : Database := .indexing [] rfl
    let e (id : String) : OrderedEntity :=
      ⟨⟨"k", some id, OrderedEntity.sample.val.fields⟩, OrderedEntity.sample.property⟩
    let t := (Tracked.fresh Faults.none .none []).replay [(db, .saveMany [e "b", e "c", e "a"])]
    ∃ pages, db.Walk (.every "k") (.holding t.engine.content) (.first 2) pages ∧
      (∀ p ∈ pages, p.total = 3 ∧ pages.length = max 1 p.totalPages.toNat) ∧
      pages.flatMap (fun p => p.items.map Entity.id) = [some "a", some "b", some "c"] := by
  intro db e t
  have hids : (db.execute (.every "k") (.holding t.engine.content)).1.toOption.map
      (fun u => (u.items.map Entity.id, u.total)) =
        some ([some "a", some "b", some "c"], 3) := by decide +kernel
  obtain ⟨history, ht⟩ : ∃ history, t = (Tracked.fresh Faults.none .none []).replay history :=
    ⟨_, rfl⟩
  clear_value t
  cases hrun : (db.execute (.every "k") (.holding t.engine.content)).1 with
  | error x =>
    rw [hrun] at hids
    cases hids
  | ok u =>
    rw [hrun] at hids
    obtain ⟨hitems, htotal⟩ := Prod.mk.inj (Option.some.inj hids)
    have hlength : u.items.length = 3 := by simpa using congrArg List.length hitems
    obtain ⟨⟨pages, hwalk, -, hcount, -, hconcat⟩, -⟩ := pages_cover_result Faults.none .none [] history
      db (.every "k") u 2 (.holding t.engine.content) (by rw [ht]; rfl) rfl rfl hrun (by omega)
      (by decide)
    refine ⟨pages, hwalk, fun p hp => ?_, ?_⟩
    · rw [← htotal]
      exact hcount p hp
    · rw [← hitems, ← hconcat, List.map_flatMap]

end IndexedStore
