import IndexedStore.Proofs.Query.Page

/-! # From page to page

Whether a page has a next one is asked of its request and of the number of matches, and so is the
number of pages. Main statement: the two agree for every page and every number of matches, and
whoever goes on to the next page comes to the last one, but for pages of size zero: they have one
page of everything, of which each is followed by another.
-/
namespace IndexedStore

universe u

variable {α : Type u}

namespace Page

variable {p p' : Page α} {r r' : PageRequest} {k : Nat}

/-- Going on to the next page `k` times, whatever items it holds. The number of matches stays. -/
inductive Leads : Page α → Nat → Page α → Prop
  | here (p : Page α) : Leads p 0 p
  | next {p p' : Page α} {r : PageRequest} {k : Nat} (goes : p.nextRequest? = some r)
      (items : List α) (others : Leads ⟨items, some r, p.total⟩ k p') : Leads p (k + 1) p'

def following (p : Page α) : Nat :=
  match p.request with
  | none => 0
  | some r => p.totalPages.toNat - (r.page.toNat + 1)

/-- The page is one of size zero, of a result that is not empty. -/
def Sizeless (p : Page α) : Prop := 0 < p.total ∧ ∃ r, p.request = some r ∧ r.size = 0

theorem nextRequest?_eq_some : p.nextRequest? = some r' ↔
    ∃ r, p.request = some r ∧ p.hasNext = true ∧ r' = r.next := by
  unfold nextRequest?
  cases p.hasNext with
  | false => simp
  | true => simp [Option.map_eq_some_iff, eq_comm]

theorem isSome_nextRequest? (p : Page α) : p.nextRequest?.isSome = p.hasNext := by
  unfold nextRequest?
  cases hn : p.hasNext with
  | false => rfl
  | true =>
    cases hr : p.request with
    | none => simp [hasNext, hr] at hn
    | some r => rfl

theorem exists_request_of_hasNext (h : p.hasNext = true) : ∃ r, p.request = some r := by
  cases hr : p.request with
  | none => simp [hasNext, hr] at h
  | some r => exact ⟨r, rfl⟩

/-- Positions that stop at the largest word tell as well whether matches remain. -/
theorem hasNext_iff_exact : p.hasNext = true ↔
    ∃ r, p.request = some r ∧ (r.page.toNat + 1) * r.size.toNat < p.total.toNat := by
  constructor
  · intro h
    obtain ⟨r, hr⟩ := exists_request_of_hasNext h
    exact ⟨r, hr, (hasNext_iff hr).mp h⟩
  · rintro ⟨r, hr, h⟩
    exact (hasNext_iff hr).mpr h

theorem hasNext_of_sizeless (h : p.Sizeless) : p.hasNext = true := by
  obtain ⟨ht, r, hr, hs⟩ := h
  rw [hasNext_iff hr, hs]
  simpa using UInt64.lt_iff_toNat_lt.mp ht

/-- A page has a next one when that counts as a page, and always when it is one of size zero. -/
theorem hasNext_iff_counts : p.hasNext = true ↔
    (∃ r, p.request = some r ∧ r.page.toNat + 1 < p.totalPages.toNat) ∨ p.Sizeless := by
  constructor
  · intro h
    obtain ⟨r, hr⟩ := exists_request_of_hasNext h
    by_cases hs : r.size = 0
    · refine .inr ⟨UInt64.lt_iff_toNat_lt.mpr ?_, r, hr, hs⟩
      simpa [hs] using (hasNext_iff hr).mp h
    · exact .inl ⟨r, hr, (hasNext_iff_lt_totalPages hr hs).mp h⟩
  · rintro (⟨r, hr, h⟩ | h)
    · by_cases hs : r.size = 0
      · have hone : p.totalPages.toNat ≤ 1 := by
          unfold totalPages
          simp only [hr, hs, if_true]
          split <;> simp
        omega
      · exact (hasNext_iff_lt_totalPages hr hs).mpr h
    · exact hasNext_of_sizeless h

theorem Sizeless.next (h : p.Sizeless) (goes : p.nextRequest? = some r) (items : List α) :
    Sizeless ⟨items, some r, p.total⟩ := by
  obtain ⟨ht, r₀, hr, hs⟩ := h
  obtain ⟨r₁, hr₁, -, rfl⟩ := nextRequest?_eq_some.mp goes
  cases hr.symm.trans hr₁
  exact ⟨ht, _, rfl, hs⟩

theorem toNat_page_next (hr : p.request = some r) (hs : r.size ≠ 0) (h : p.hasNext = true) :
    r.next.page.toNat = r.page.toNat + 1 := by
  have hlt := (hasNext_iff_lt_totalPages hr hs).mp h
  have hword := p.totalPages.toNat_lt
  rw [PageRequest.next, Number.toNat_satAdd, UInt64.toNat_one]
  omega

theorem totalPages_congr (hr : p.request = some r) (hr' : p'.request = some r')
    (hsize : r'.size = r.size) (htotal : p'.total = p.total) : p'.totalPages = p.totalPages := by
  unfold totalPages
  rw [hr, hr', htotal]
  simp only [hsize]

theorem following_next (h : ¬p.Sizeless) (goes : p.nextRequest? = some r) (items : List α) :
    ¬Sizeless ⟨items, some r, p.total⟩ ∧
      p.following = following ⟨items, some r, p.total⟩ + 1 := by
  obtain ⟨r₀, hr, hn, rfl⟩ := nextRequest?_eq_some.mp goes
  have hsize : r₀.size ≠ 0 := by
    intro hs
    have htotal := (hasNext_iff hr).mp hn
    rw [hs] at htotal
    exact h ⟨UInt64.lt_iff_toNat_lt.mpr (by simpa using htotal), r₀, hr, hs⟩
  refine ⟨fun ⟨_, _, hr', hs⟩ => hsize (by cases hr'; exact hs), ?_⟩
  have hcount : (Page.mk items (some r₀.next) p.total).totalPages = p.totalPages :=
    totalPages_congr hr rfl rfl rfl
  have hlt := (hasNext_iff_lt_totalPages hr hsize).mp hn
  unfold following
  simp only [hr, hcount, toNat_page_next hr hsize hn]
  omega

theorem hasNext_iff_following (h : ¬p.Sizeless) : p.hasNext = true ↔ 0 < p.following := by
  rw [hasNext_iff_counts, or_iff_left h]
  unfold following
  cases p.request with
  | none => simp
  | some r => simp

theorem Leads.following_add (h : p.Leads k p') (hp : ¬p.Sizeless) :
    ¬p'.Sizeless ∧ p'.following + k = p.following := by
  induction h with
  | here p => exact ⟨hp, rfl⟩
  | next goes items _ ih =>
    obtain ⟨hnext, hcount⟩ := following_next hp goes items
    obtain ⟨hp', hadd⟩ := ih hnext
    exact ⟨hp', by omega⟩

theorem exists_leads (p : Page α) (hp : ¬p.Sizeless) {k : Nat} (hk : k ≤ p.following) :
    ∃ p', p.Leads k p' := by
  induction k generalizing p with
  | zero => exact ⟨p, .here p⟩
  | succ k ih =>
    have hn : p.hasNext = true := (hasNext_iff_following hp).mpr (by omega)
    obtain ⟨r, goes⟩ := Option.isSome_iff_exists.mp ((isSome_nextRequest? p).trans hn)
    obtain ⟨hnext, hcount⟩ := following_next hp goes []
    obtain ⟨p', h⟩ := ih _ hnext (by omega)
    exact ⟨p', .next goes [] h⟩

theorem Leads.sizeless (h : p.Leads k p') (hp : p.Sizeless) : p'.Sizeless := by
  induction h with
  | here p => exact hp
  | next goes items _ ih => exact ih (hp.next goes items)

theorem Sizeless.exists_leads (hp : p.Sizeless) (k : Nat) : ∃ p', p.Leads k p' := by
  induction k generalizing p with
  | zero => exact ⟨p, .here p⟩
  | succ k ih =>
    obtain ⟨r, goes⟩ := Option.isSome_iff_exists.mp
      ((isSome_nextRequest? p).trans (hasNext_of_sizeless hp))
    obtain ⟨p', h⟩ := ih (hp.next goes [])
    exact ⟨p', .next goes [] h⟩

end Page

/-- A page has a next request exactly when matches remain behind it, in numbers that do not stop
at the largest word, and exactly when the page number after its own counts as a page, or when it
is a page of size zero of a result that is not empty. The next request is for that page number.
Whoever goes on comes to a page without a next one after as many steps as pages follow, from a
page of size zero of such a result never. -/
theorem navigation_consistent (p : Page α) :
    p.nextRequest?.isSome = p.hasNext ∧
    (p.hasNext = true ↔
      ∃ r, p.request = some r ∧ (r.page.toNat + 1) * r.size.toNat < p.total.toNat) ∧
    (p.hasNext = true ↔
      (∃ r, p.request = some r ∧ r.page.toNat + 1 < p.totalPages.toNat) ∨ p.Sizeless) ∧
    (∀ r', p.nextRequest? = some r' → ∃ r, p.request = some r ∧ r'.size = r.size ∧
      (r.size ≠ 0 → r'.page.toNat = r.page.toNat + 1)) ∧
    (¬p.Sizeless → (∃ last, p.Leads p.following last) ∧
      ∀ k p', p.Leads k p' → k ≤ p.following ∧ (p'.hasNext = false ↔ k = p.following)) ∧
    (p.Sizeless → ∀ k, (∃ p', p.Leads k p') ∧ ∀ p', p.Leads k p' → p'.hasNext = true) := by
  refine ⟨p.isSome_nextRequest?, Page.hasNext_iff_exact, Page.hasNext_iff_counts, ?_, ?_, ?_⟩
  · intro r' goes
    obtain ⟨r, hr, hn, rfl⟩ := Page.nextRequest?_eq_some.mp goes
    exact ⟨r, hr, rfl, fun hs => Page.toNat_page_next hr hs hn⟩
  · intro hp
    refine ⟨p.exists_leads hp (Nat.le_refl _), fun k p' h => ?_⟩
    obtain ⟨hp', hadd⟩ := h.following_add hp
    have hlast := Page.hasNext_iff_following hp'
    rw [← Bool.not_eq_true, hlast]
    omega
  · intro hp k
    exact ⟨hp.exists_leads k, fun p' h => Page.hasNext_of_sizeless (h.sizeless hp)⟩

/-- Of six matches on pages of five the second page is the last. Of one match on pages of size
zero there is one page, and no page is the last. -/
theorem endless_pages_of_size_zero :
    let q : Page String := ⟨[], some ⟨0, 5⟩, 6⟩
    let p : Page String := ⟨[], some ⟨0, 0⟩, 1⟩
    (∃ last, q.Leads 1 last ∧ last.hasNext = false) ∧
      p.totalPages = 1 ∧ p.nextRequest? = some ⟨1, 0⟩ ∧
        ∀ k, ∃ p', p.Leads k p' ∧ p'.hasNext = true := by
  intro q p
  have hq : ¬q.Sizeless := by
    rintro ⟨-, r, hr, hs⟩
    cases hr
    cases hs
  have hp : p.Sizeless := ⟨by decide, ⟨0, 0⟩, rfl, rfl⟩
  obtain ⟨-, -, -, -, hends, -⟩ := navigation_consistent q
  obtain ⟨-, -, -, -, -, hendless⟩ := navigation_consistent p
  have hone : q.following = 1 := by decide
  rw [hone] at hends
  obtain ⟨⟨last, hlast⟩, hstop⟩ := hends hq
  refine ⟨⟨last, hlast, ((hstop 1 last hlast).2).mpr rfl⟩, by decide, by decide, fun k => ?_⟩
  obtain ⟨⟨p', h⟩, hall⟩ := hendless hp k
  exact ⟨p', h, hall p' h⟩

end IndexedStore
