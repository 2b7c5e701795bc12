import Mathlib.Data.List.Induction
import EdgePlacement.Proofs.Placement.Choice

/-!
How far apart the counts within a class can get.

A visit takes the entries with the lowest counts first, so where only one of two entries of
a class is chosen its count was not above the other's. A request therefore brings two
counts that differ nearer to each other, and takes two that agree at most one apart
(`gap_serve`). A count is a 64-bit number, which takes 2⁶⁴ requests for space to wrap
around (`count_after_le`). -/
namespace EdgePlacement.Greedy

/-- What a request chooses. -/
def chosen (g : Greedy) : Request → List String
  | .register .. => []
  | .unregister _ => []
  | .allocate available => (g.allocate available).1

/-- How far apart the counts of two tracked ids are. -/
def gap? (g : Greedy) (x y : String) : Option Nat :=
  (g.count? x).bind fun a => (g.count? y).map fun b => ((a.toNat : Int) - b.toNat).natAbs

/-- Both ids are tracked, and in the same class. -/
def Peers (table : SizeTable) (t : Tracked) (x y : String) : Prop :=
  ∃ sx sy, t x = some sx ∧ t y = some sy ∧ table.classFor sx = table.classFor sy

theorem Peers.next {table : SizeTable} {t : Tracked} {x y : String} (h : Peers table t x y)
    {r : Request} (hx : (t.next r x).isSome = true) (hy : (t.next r y).isSome = true) :
    Peers table (t.next r) x y := by
  obtain ⟨sx, sy, htx, hty, hclass⟩ := h
  exact ⟨sx, sy, Tracked.next_of_some htx hx, Tracked.next_of_some hty hy, hclass⟩

section Fairness
variable {g : Greedy} {t : Tracked}

/-! ### Counts -/

/-- While an id stays tracked, being chosen is all that happens to its entry. -/
theorem Consistent.get?_serve (h : g.Consistent t) {id : String} (ht : (t id).isSome = true)
    {r : Request} (hstays : (t.next r id).isSome = true) :
    (g.serve r).get? id = (g.get? id).map (tally (g.chosen r)) := by
  have hkept : (g.get? id).map (tally []) = g.get? id := by
    cases g.get? id <;> rfl
  cases r with
  | register other size =>
    refine Eq.trans ?_ hkept.symm
    show (g.register other size).2.get? id = _
    rw [get?_register h, if_neg]
    rintro ⟨rfl, hnone⟩
    rw [hnone] at ht
    cases ht
  | unregister other =>
    refine Eq.trans ?_ hkept.symm
    show (g.unregister other).2.get? id = _
    rw [get?_unregister h, if_neg]
    rintro rfl
    simp [Tracked.next] at hstays
  | allocate available => exact get?_allocate h available id

theorem count_tally_le (ids : List String) (e : Entry) :
    (tally ids e).count.toNat ≤ e.count.toNat + 1 := by
  unfold tally
  split
  · show (e.count + 1).toNat ≤ _
    rw [UInt64.toNat_add]
    exact Nat.mod_le _ _
  · exact Nat.le_succ _

/-- A request raises counts by at most one, and only one for space raises any. -/
theorem Consistent.count_serve_le (h : g.Consistent t) {r : Request} {n : Nat}
    (hn : ∀ id e, g.get? id = some e → e.count.toNat ≤ n) {id : String} {e : Entry}
    (he : (g.serve r).get? id = some e) : e.count.toNat ≤ n + Request.calls [r] := by
  cases r with
  | register other size =>
    have he' : (g.register other size).2.get? id = some e := he
    rw [get?_register h] at he'
    split at he'
    · cases he'
      exact Nat.zero_le _
    · exact hn id e he'
  | unregister other =>
    have he' : (g.unregister other).2.get? id = some e := he
    rw [get?_unregister h] at he'
    split at he'
    · cases he'
    · exact hn id e he'
  | allocate available =>
    have he' : (g.allocate available).2.get? id = some e := he
    rw [get?_allocate h] at he'
    obtain ⟨a, ha, rfl⟩ := Option.map_eq_some_iff.1 he'
    have hle := count_tally_le (g.allocate available).1 a
    have := hn id a ha
    show _ ≤ n + 1
    omega

/-- No entry has been chosen more often than there were requests for space. -/
theorem count_after_le (table : SizeTable) (requests : List Request) :
    ∀ id e, (after table requests).get? id = some e → e.count.toNat ≤ Request.calls requests := by
  induction requests using List.reverseRecOn with
  | nil =>
    intro id e he
    rw [show after table [] = new table from rfl, (consistent_new table).get?_of_none rfl] at he
    cases he
  | append_singleton soFar r ih =>
    intro id e he
    rw [after_append] at he
    rw [Request.calls_append]
    exact (consistent_after table soFar).count_serve_le ih he

/-! ### One request -/

/-- Only a request for space chooses anything. -/
theorem eq_allocate_of_mem_chosen {r : Request} {id : String} (h : id ∈ g.chosen r) :
    ∃ available, r = .allocate available := by
  cases r with
  | register other size => cases h
  | unregister other => cases h
  | allocate available => exact ⟨available, rfl⟩

/-- Of two entries of a class, one that is chosen where the other is not has the lower
count or the same. -/
theorem Consistent.count_le_of_passed_over (h : g.Consistent t) {r : Request} {x y : String}
    {a b : Entry} (ha : g.get? x = some a) (hb : g.get? y = some b)
    (hclass : g.table.classFor a.size = g.table.classFor b.size)
    (hx : x ∈ g.chosen r) (hy : y ∉ g.chosen r) : a.count ≤ b.count := by
  obtain ⟨available, rfl⟩ := eq_allocate_of_mem_chosen hx
  rw [h.get?_eq_some_iff] at ha hb
  obtain ⟨v, hv, hin⟩ := mem_allocate_iff.1 hx
  obtain ⟨e, he, rfl⟩ := List.mem_map.1 hin
  obtain ⟨he', hsize, hcl⟩ := h.of_mem_taken hv he
  -- The entry taken is the one `x` is tracked with.
  rw [(h.queued _ _ _ ha).1] at hsize
  rw [← Option.some.inj hsize] at hcl
  rw [hcl, he'] at ha
  rw [← Option.some.inj ha]
  rw [← hclass, hcl] at hb
  have hq := h.sound v.sizeClass
  have hsorted := FairQueue.drain_sorted hq
  have hmem := (FairQueue.mem_drain_iff hq (e := b)).2 (by rw [hq.indexed.id_of_get? hb]; exact hb)
  have htaken := (walked_visits h.size available).taken v hv
  rw [drain_haul hq (g.lowerBound v.sizeClass) v.space] at hsorted hmem
  rw [show haul (g.lowerBound v.sizeClass) v.space (g.queue v.sizeClass) =
    g.visit v.sizeClass v.space from rfl, ← htaken] at hsorted hmem
  rcases List.mem_append.1 hmem with hb' | hb'
  · refine absurd (mem_allocate_iff.2 ⟨v, hv, ?_⟩) hy
    rw [← hq.indexed.id_of_get? hb]
    exact List.mem_map_of_mem hb'
  · exact (List.pairwise_append.1 hsorted).2.2 e he b hb'

theorem count_tally {ids : List String} {e : Entry}
    (hroom : e.id ∈ ids → e.count.toNat + 1 < UInt64.size) :
    (tally ids e).count.toNat = e.count.toNat + if e.id ∈ ids then 1 else 0 := by
  unfold tally
  split
  · next hin =>
    show (e.count + 1).toNat = _
    rw [UInt64.toNat_add]
    exact Nat.mod_eq_of_lt (hroom hin)
  · rfl

theorem gap?_of_get? {x y : String} {a b : Entry} (ha : g.get? x = some a)
    (hb : g.get? y = some b) :
    g.gap? x y = some ((a.count.toNat : Int) - b.count.toNat).natAbs := by
  simp [gap?, count?, ha, hb]

/-- A request takes the counts of two ids of a class no further apart than they were, or
than one. -/
theorem Consistent.gap_serve (h : g.Consistent t) {x y : String} {r : Request} {d : Nat}
    (hpeers : Peers g.table t x y) (hx : (t.next r x).isSome = true)
    (hy : (t.next r y).isSome = true)
    (hroom : ∀ id e, g.get? id = some e → e.count.toNat + Request.calls [r] < UInt64.size)
    (hd : g.gap? x y = some d) : ∃ d', (g.serve r).gap? x y = some d' ∧ d' ≤ max 1 d := by
  obtain ⟨sx, sy, htx, hty, hclass⟩ := hpeers
  obtain ⟨a, ha, rfl, rfl⟩ := h.exists_entry htx
  obtain ⟨b, hb, rfl, rfl⟩ := h.exists_entry hty
  have ha' := h.get?_serve (by rw [htx]; rfl) hx
  have hb' := h.get?_serve (by rw [hty]; rfl) hy
  rw [ha, Option.map_some] at ha'
  rw [hb, Option.map_some] at hb'
  refine ⟨_, gap?_of_get? ha' hb', ?_⟩
  rw [gap?_of_get? ha hb] at hd
  have hcalls : ∀ id ∈ g.chosen r, Request.calls [r] = 1 := by
    intro id hid
    obtain ⟨available, rfl⟩ := eq_allocate_of_mem_chosen hid
    rfl
  have hab := h.count_le_of_passed_over (r := r) ha hb hclass
  have hba := h.count_le_of_passed_over (r := r) hb ha hclass.symm
  rw [UInt64.le_iff_toNat_le] at hab hba
  rw [count_tally fun hin => hcalls _ hin ▸ hroom _ a ha,
    count_tally fun hin => hcalls _ hin ▸ hroom _ b hb, ← Option.some.inj hd]
  by_cases hina : a.id ∈ g.chosen r <;> by_cases hinb : b.id ∈ g.chosen r
  · rw [if_pos hina, if_pos hinb]
    omega
  · have := hab hina hinb
    rw [if_pos hina, if_neg hinb]
    omega
  · have := hba hinb hina
    rw [if_neg hina, if_pos hinb]
    omega
  · rw [if_neg hina, if_neg hinb]
    omega

end Fairness

/-! ### Runs -/

/-- While two ids of a class stay tracked, their counts get no further apart than they
were, or than one. -/
theorem gap_run (table : SizeTable) {before : List Request} {x y : String} {d : Nat}
    (hpeers : Peers table (Tracked.after before) x y)
    (hd : (after table before).gap? x y = some d) (later : List Request)
    (hfew : Request.calls (before ++ later) < UInt64.size)
    (hx : Tracked.Throughout before later x) (hy : Tracked.Throughout before later y) :
    Peers table (Tracked.after (before ++ later)) x y ∧
      ∃ d', (after table (before ++ later)).gap? x y = some d' ∧ d' ≤ max 1 d := by
  induction later using List.reverseRecOn with
  | nil =>
    rw [List.append_nil]
    exact ⟨hpeers, d, hd, Nat.le_max_right _ _⟩
  | append_singleton soFar r ih =>
    rw [← List.append_assoc, Request.calls_append] at hfew
    obtain ⟨hxs, hxr⟩ := hx.concat
    obtain ⟨hys, hyr⟩ := hy.concat
    obtain ⟨hpeers', d', hd', hle⟩ := ih (by omega) hxs hys
    have h := consistent_after table (before ++ soFar)
    have hpeers'' := hpeers'
    rw [← table_after table (before ++ soFar)] at hpeers''
    obtain ⟨d'', hd'', hle'⟩ := h.gap_serve hpeers'' hxr hyr (fun id e he => by
      have := count_after_le table (before ++ soFar) id e he
      omega) hd'
    rw [← List.append_assoc, Tracked.after_append, after_append]
    exact ⟨hpeers'.next hxr hyr, d'', hd'', by omega⟩

/-- **Counts within a class stay together.** Take any run of requests at whose end two ids
are tracked in the same class, for instance the one that ends as the second of them is
registered, and any continuation throughout which both stay tracked, with fewer than 2⁶⁴
requests for space in all. Then the counts of the two end no further apart than they were,
or than one; and no further than one if no space was requested in the first part. -/
theorem gap_bounded (table : SizeTable) (before later : List Request) (x y : String)
    (hfew : Request.calls (before ++ later) < UInt64.size)
    (hpeers : Peers table (Tracked.after before) x y)
    (hx : Tracked.Throughout before later x) (hy : Tracked.Throughout before later y) :
    ∃ d d', (after table before).gap? x y = some d ∧
      (after table (before ++ later)).gap? x y = some d' ∧ d' ≤ max 1 d ∧
      (Request.calls before = 0 → d' ≤ 1) := by
  have h := consistent_after table before
  obtain ⟨sx, sy, htx, hty, hclass⟩ := hpeers
  obtain ⟨a, ha, -, -⟩ := h.exists_entry htx
  obtain ⟨b, hb, -, -⟩ := h.exists_entry hty
  have hd := gap?_of_get? ha hb
  obtain ⟨-, d', hd', hle⟩ := gap_run table ⟨sx, sy, htx, hty, hclass⟩ hd later hfew hx hy
  refine ⟨_, d', hd, hd', hle, fun hnone => ?_⟩
  have hzero := count_after_le table before x a ha
  have hzero' := count_after_le table before y b hb
  omega

/-- A latecomer: one of two is chosen three times before the other is registered. -/
theorem gap_bounded_latecomer :
    let before := [.register "early" 60, .allocate 100, .allocate 100, .allocate 100,
      .register "late" 70]
    let later := [.allocate 100, .unregister "absent", .allocate 130]
    Request.calls (before ++ later) < UInt64.size ∧
    Peers (.ofList [100]) (Tracked.after before) "early" "late" ∧
    Tracked.Throughout before later "early" ∧ Tracked.Throughout before later "late" ∧
    ∃ d d', (after (.ofList [100]) before).gap? "early" "late" = some d ∧
      (after (.ofList [100]) (before ++ later)).gap? "early" "late" = some d' ∧ d' ≤ max 1 d ∧
      (Request.calls before = 0 → d' ≤ 1) := by
  intro before later
  have hfew : Request.calls (before ++ later) < UInt64.size := by decide
  have hclass : (SizeTable.ofList [100]).classFor 60 = (SizeTable.ofList [100]).classFor 70 := by
    simp [SizeTable.classFor, SizeTable.ofList, Size.ascending, Size.dropRepeats, List.mergeSort,
      Size.firstAtLeast, Size.boundary]
  have hpeers : Peers (.ofList [100]) (Tracked.after before) "early" "late" :=
    ⟨60, 70, by decide, by decide, hclass⟩
  have hx : Tracked.Throughout before later "early" := by decide
  have hy : Tracked.Throughout before later "late" := by decide
  exact ⟨hfew, hpeers, hx, hy, gap_bounded _ before later "early" "late" hfew hpeers hx hy⟩

end EdgePlacement.Greedy
