import EdgePlacement.Proofs.Placement.Choice

/-!
When a request gets nothing.

A visit that takes nothing leaves the space as it was, so a walk that has taken nothing goes
on to the class right below. Therefore a request is answered with nothing exactly if, in
every class that the space reaches, the entry that stands first is too large
(`allocate_eq_nil_iff`). Below the last class nothing is larger than the threshold of its
class, so such an entry can only stand in the last class, which also has the sizes above all
thresholds; there it hides the entries behind it, some of which may well fit
(`fitting_entry_hidden`). -/
namespace EdgePlacement

namespace SizeTable

theorem reach_zero (table : SizeTable) : table.reach 0 = 0 := by
  by_contra hne
  obtain ⟨t, ht, hle⟩ := table.le_reach_iff.1 (Nat.pos_of_ne_zero hne)
  have hlt := List.pairwise_iff_getElem.1 table.ascending
  obtain ⟨h1, rfl⟩ := Array.getElem?_eq_some_iff.1 (show table.thresholds[1]? = some t from ht)
  exact UInt64.not_lt.2 (UInt64.le_trans hle UInt64.zero_le)
    (hlt 0 1 (by simp; omega) (by simpa using h1) Nat.one_pos)

/-- Below the last class no size is above the threshold of its class. -/
theorem le_bound_of_classFor {table : SizeTable} {size bound : UInt64}
    (hbelow : table.classFor size + 1 < table.size)
    (hbound : table.bound? (table.classFor size) = some bound) : size ≤ bound := by
  have hclass : table.classFor size = Size.firstAtLeast table.thresholds size := by
    unfold classFor at hbelow ⊢
    omega
  have hiff := Size.lt_firstAtLeast_iff table.pairwise_le size (table.classFor size)
  refine UInt64.not_lt.1 fun hlt => ?_
  have := hiff.2 ⟨bound, hbound, hlt⟩
  omega

end SizeTable

namespace FairQueue

/-! ### Entries that stay in front -/

/-- An entry that is sifted up does not pass a root that has been chosen no more often. -/
theorem min?_siftUp {q : FairQueue} {i : Nat} {e first : Entry} (hpos : 0 < i)
    (he : q.heap[i]? = some e) (hfirst : q.min? = some first) (hle : first.count ≤ e.count) :
    (q.siftUp i).2.min? = some first := by
  fun_induction siftUp q i with
  | case1 q => exact absurd hpos (Nat.lt_irrefl 0)
  | case2 q i hne hb ih =>
    have hi := lt_size_of_before hb
    have hp := Nat.lt_trans (parent_lt hpos) hi
    have hroot : q.heap[0]? = some first := hfirst
    have hinner : 0 < parent i := by
      refine Nat.pos_of_ne_zero fun h0 => ?_
      simp only [before, h0, he, hroot, decide_eq_true_eq] at hb
      exact UInt64.not_lt.2 hle hb
    refine ih hinner ?_ ?_
    · rw [getElem?_swap hi hp, if_neg (Nat.ne_of_lt (parent_lt hpos)), if_pos rfl, he]
    · show (q.swap i (parent i)).heap[0]? = some first
      rw [getElem?_swap hi hp, if_neg (Nat.ne_of_lt hpos), if_neg (Nat.ne_of_lt hinner), hroot]
  | case3 q i hne hb => exact hfirst

/-- A new entry does not go before one that has been chosen no more often. -/
theorem min?_insert {q : FairQueue} {e first : Entry} (hnew : q.index[e.id]? = none)
    (hfirst : q.min? = some first) (hle : first.count ≤ e.count) :
    (q.insert e).min? = some first := by
  have hroot : q.heap[0]? = some first := hfirst
  have hpos : 0 < q.heap.size := (Array.getElem?_eq_some_iff.1 hroot).1
  unfold insert
  rw [hnew]
  refine min?_siftUp hpos Array.getElem?_push_size ?_ hle
  show (q.heap.push e)[0]? = some first
  rw [Array.getElem?_push_lt hpos, ← Array.getElem?_eq_getElem hpos, hroot]

theorem min?_insert_empty (e : Entry) : (empty.insert e).min? = some e := by
  simp [insert, empty, min?, size, siftUp]

end FairQueue

namespace Greedy

/-! ### Visits that take nothing -/

theorem lowerBound_le {g : Greedy} {c : Nat} {space : UInt64} (h : c ≤ g.table.reach space) :
    g.lowerBound c ≤ space := by
  obtain ⟨t, ht, hle⟩ := g.table.le_reach_iff.1 (Nat.le_trans (Nat.sub_le c 1) h)
  unfold lowerBound
  rw [ht]
  exact hle

/-- A visit that is worth making takes nothing exactly if the first entry is too large. -/
theorem taken_haul_eq_nil_iff {q : FairQueue} (hq : q.Sound) {lower space : UInt64}
    (hlower : lower ≤ space) :
    (haul lower space q).taken = [] ↔ ∀ e, q.min? = some e → space < e.size := by
  rw [haul, if_neg (UInt64.not_lt.2 hlower)]
  split
  · next q' hpop =>
    simp [(FairQueue.empty_of_popMin hq hpop).2.1]
  · next e q' hpop =>
    rcases FairQueue.popMin_cases hq with ⟨hnone, -, -⟩ | ⟨e₁, q₁, hsome, hmin, -⟩
    · rw [hnone] at hpop
      cases hpop
    · rw [hsome] at hpop
      cases hpop
      split
      · next hlarge => simpa [hmin] using hlarge
      · next hfits => simpa [hmin] using hfits

/-- It leaves the space as it was. -/
theorem space_haul_of_taken_eq_nil {q : FairQueue} {lower space : UInt64}
    (h : (haul lower space q).taken = []) : (haul lower space q).space = space := by
  have hsum := space_haul lower space q
  rw [h] at hsum
  exact UInt64.toNat_inj.1 hsum

/-! ### Walks that take nothing -/

/-- A walk from a class that the space reaches takes nothing exactly if in each class from
there down the first entry is too large. -/
theorem walk_eq_nil_iff {g : Greedy} {top : Nat} {space : UInt64}
    (hsound : ∀ c, (g.queue c).Sound) (htop : top < g.queues.size)
    (hreach : top ≤ g.table.reach space) :
    ((g.walk top space).1.flatMap fun v => v.taken) = [] ↔
      ∀ c, 1 ≤ c → c ≤ top → ∀ e, (g.queue c).min? = some e → space < e.size := by
  fun_induction walk g top space with
  | case1 g top space hstop =>
    have hzero : top = 0 := by
      rcases hstop with hzero | rfl
      · exact hzero
      · rwa [g.table.reach_zero, Nat.le_zero] at hreach
    refine iff_of_true rfl fun c hpos hle => ?_
    omega
  | case2 g top space hgo h next visits g' hwalk ih =>
    have hpos : 1 ≤ top := by omega
    have htaken : h.taken = [] ↔ ∀ e, (g.queue top).min? = some e → space < e.size :=
      taken_haul_eq_nil_iff (hsound top) (lowerBound_le hreach)
    rw [List.flatMap_cons, List.append_eq_nil_iff]
    by_cases hnil : h.taken = []
    case neg =>
      refine iff_of_false (fun hand => hnil hand.1) (fun hall => hnil (htaken.2 ?_))
      exact hall top hpos (Nat.le_refl _)
    have hspace : h.space = space := space_haul_of_taken_eq_nil hnil
    have hnext : next = top - 1 := by
      show min (top - 1) (g.table.reach h.space) = top - 1
      rw [hspace]
      omega
    have hother : ∀ c, c ≠ top → (g.setQueue top h.putBack).queue c = g.queue c :=
      fun c hc => queue_setQueue_of_ne g _ hc
    have hsound' : ∀ c, ((g.setQueue top h.putBack).queue c).Sound := by
      intro c
      by_cases hc : c = top
      · rw [hc, queue_setQueue_self htop]
        exact sound_putBack (hsound top) _ _
      · rw [hother c hc]
        exact hsound c
    have hrest := ih hsound' (by rw [size_queues_setQueue]; omega)
      (by rw [setQueue_table]; exact Nat.min_le_right _ _)
    rw [hwalk, hspace, hnext] at hrest
    rw [and_iff_right hnil, hrest]
    constructor
    · intro hbelow c hc hle e he
      by_cases hct : c = top
      · exact htaken.1 hnil e (hct ▸ he)
      · exact hbelow c hc (by omega) e (by rw [hother c hct]; exact he)
    · intro hall c hc hle e he
      rw [hother c (by omega)] at he
      exact hall c hc (by omega) e he

section Consistent
variable {g : Greedy} {t : Tracked}

/-- A request gets nothing exactly if in each class that the space reaches the first entry
is too large. -/
theorem Consistent.allocate_eq_nil_iff (h : g.Consistent t) (available : UInt64) :
    (g.allocate available).1 = [] ↔ ∀ c, 1 ≤ c → c ≤ g.table.reach available →
      ∀ e, (g.queue c).min? = some e → available < e.size := by
  have hreach : g.table.reach available < g.queues.size := by
    rw [h.size]
    exact g.table.reach_lt available
  rw [← walk_eq_nil_iff h.sound hreach (Nat.le_refl _), allocate_fst]
  simp only [List.flatMap_eq_nil_iff, List.map_eq_nil_iff, visits]

/-- The queue of a tracked id has a first entry, which is tracked and of the class of the
queue. -/
theorem Consistent.exists_front (h : g.Consistent t) {id : String} {size : UInt64}
    (ht : t id = some size) : ∃ e, (g.queue (g.table.classFor size)).min? = some e ∧
      t e.id = some e.size ∧ g.table.classFor e.size = g.table.classFor size := by
  obtain ⟨a, ha⟩ := Option.isSome_iff_exists.1 (h.found id size ht)
  rcases FairQueue.popMin_cases (h.sound (g.table.classFor size)) with
    ⟨-, -, hnone⟩ | ⟨e, q', -, hmin, htaken, -⟩
  · rw [hnone id] at ha
    cases ha
  · exact ⟨e, hmin, h.queued _ _ _ htaken.get?_self⟩

/-- Where all that is tracked fits, something is found if a class that is visited holds any of
it. -/
theorem Consistent.allocate_ne_nil (h : g.Consistent t) {available : UInt64}
    (hfits : ∀ id size, t id = some size → size ≤ available) {id : String} {size : UInt64}
    (ht : t id = some size) (hpos : 1 ≤ g.table.classFor size)
    (hreach : g.table.classFor size ≤ g.table.reach available) :
    (g.allocate available).1 ≠ [] := by
  intro hnil
  obtain ⟨e, hmin, htracked, -⟩ := h.exists_front ht
  exact UInt64.not_lt.2 (hfits _ _ htracked)
    ((h.allocate_eq_nil_iff available).1 hnil _ hpos hreach e hmin)

/-- A registration queues a fresh entry in the class of its size. -/
theorem Consistent.queue_register (h : g.Consistent t) {id : String} (ht : t id = none)
    (size : UInt64) (c : Nat) : (g.register id size).2.queue c =
      if c = g.table.classFor size then (g.queue c).insert ⟨id, size, 0⟩ else g.queue c := by
  rw [register_of_untracked h ht]
  refine (queue_replace (h.class_lt size) _ _ c).trans ?_
  split
  · next hc => rw [hc]
  · rfl

/-- Where a request gets nothing, all that is tracked in a class the space reaches is in the
last class, behind an entry that is too large. -/
theorem Consistent.front_of_allocate_eq_nil (h : g.Consistent t) {available : UInt64}
    (hnil : (g.allocate available).1 = []) {id : String} {size : UInt64}
    (ht : t id = some size) (hpos : 1 ≤ g.table.classFor size)
    (hreach : g.table.classFor size ≤ g.table.reach available) :
    g.table.classFor size + 1 = g.table.size ∧
      ∃ e, (g.queue (g.table.classFor size)).min? = some e ∧ available < e.size := by
  obtain ⟨e, hmin, -, hclass⟩ := h.exists_front ht
  have hlarge := (h.allocate_eq_nil_iff available).1 hnil _ hpos hreach e hmin
  refine ⟨?_, e, hmin, hlarge⟩
  by_contra hne
  have hlt := g.table.classFor_lt size
  obtain ⟨bound, hbound, hle⟩ := g.table.le_reach_iff.1 hreach
  have hfits : e.size ≤ bound :=
    SizeTable.le_bound_of_classFor (by rw [hclass]; omega) (by rw [hclass]; exact hbound)
  exact UInt64.not_lt.2 (UInt64.le_trans hfits hle) hlarge

end Consistent

/-- **A request gets nothing for want of fitting fronts.** After any run of requests the
answer to a request for space is empty exactly if, in every class from 1 to what the space
reaches, the entry that stands first is too large; and then every id that is tracked in one
of these classes is in the last class of the table, and what stands first there is too
large. -/
theorem allocate_empty_iff (table : SizeTable) (requests : List Request) (available : UInt64) :
    let g := after table requests
    let t := Tracked.after requests
    ((g.allocate available).1 = [] ↔ ∀ c, 1 ≤ c → c ≤ table.reach available →
      ∀ e, (g.queue c).min? = some e → available < e.size) ∧
    ((g.allocate available).1 = [] → ∀ id size, t id = some size →
      1 ≤ table.classFor size → table.classFor size ≤ table.reach available →
      table.classFor size + 1 = table.size ∧
        ∃ e, (g.queue (table.classFor size)).min? = some e ∧ available < e.size) := by
  intro g t
  have h : g.Consistent t := consistent_after table requests
  have htable : g.table = table := table_after table requests
  rw [← htable]
  exact ⟨h.allocate_eq_nil_iff available,
    fun hnil id size ht hpos hreach => h.front_of_allocate_eq_nil hnil ht hpos hreach⟩

/-- The entry that is registered first stands before one registered after it, neither of them
ever chosen, and hides it where it is too large. -/
theorem fitting_entry_hidden :
    let table := SizeTable.ofList [100]
    let requests := [.register "large" 1000, .register "small" 50]
    let g := after table requests
    (g.allocate 200).1 = [] ∧ Tracked.after requests "small" = some 50 ∧
      1 ≤ table.classFor 50 ∧ table.classFor 50 ≤ table.reach 200 ∧ (50 : UInt64) ≤ 200 := by
  intro table requests g
  have hclass : ∀ size, size = 50 ∨ size = 1000 → table.classFor size = 1 := by
    rintro size (rfl | rfl) <;>
      simp [table, SizeTable.classFor, SizeTable.size, SizeTable.ofList, Size.ascending,
        Size.dropRepeats, List.mergeSort, Size.firstAtLeast, Size.boundary]
  have hreach : table.reach 200 = 1 := by
    simp [table, SizeTable.reach, SizeTable.ofList, Size.ascending, Size.dropRepeats,
      List.mergeSort, Size.lastAtMost, Size.boundary]
  have hg : g.Consistent (Tracked.after requests) := consistent_after table requests
  have hfirst : ((new table).register "large" 1000).2.queue 1 =
      FairQueue.empty.insert ⟨"large", 1000, 0⟩ := by
    refine ((consistent_new table).queue_register rfl 1000 1).trans ?_
    rw [show (new table).table = table from rfl, if_pos (hclass 1000 (.inr rfl)).symm]
    exact congrArg (FairQueue.insert · _) (queue_new table 1)
  have hqueue : g.queue 1 =
      (FairQueue.empty.insert ⟨"large", 1000, 0⟩).insert ⟨"small", 50, 0⟩ := by
    have h₁ : ((new table).register "large" 1000).2.Consistent _ :=
      consistent_after table [.register "large" 1000]
    have htable : ((new table).register "large" 1000).2.table = table :=
      table_after table [.register "large" 1000]
    refine (h₁.queue_register (by decide) 50 1).trans ?_
    rw [htable, if_pos (hclass 50 (.inl rfl)).symm, hfirst]
  have hmin : (g.queue 1).min? = some ⟨"large", 1000, 0⟩ := by
    rw [hqueue]
    refine FairQueue.min?_insert ?_ (FairQueue.min?_insert_empty _) (UInt64.le_refl 0)
    simp [FairQueue.insert, FairQueue.empty, FairQueue.siftUp, FairQueue.size]
  refine ⟨(hg.allocate_eq_nil_iff 200).2 fun c hpos hle e he => ?_, by decide, ?_, ?_, by decide⟩
  · have htable : g.table = table := table_after table requests
    rw [htable, hreach] at hle
    obtain rfl : c = 1 := by omega
    rw [hmin] at he
    cases he
    decide
  · rw [hclass 50 (.inl rfl)]
  · rw [hclass 50 (.inl rfl), hreach]

end Greedy
end EdgePlacement
