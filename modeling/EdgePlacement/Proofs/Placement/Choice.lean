import EdgePlacement.Proofs.Placement.Consistency

/-!
What a request for space chooses.

The entries taken on a walk come from the queues as they were before it, each from the
queue of its own class, and a class is visited at most once. So the ids chosen are distinct
and tracked, their classes descend, and their registered sizes add up to what the visits
spent, which the space covers (`allocate_within_capacity`). To the allocator a request only
counts what it chose (`get?_allocate`): what is registered stays as it is. -/
namespace EdgePlacement.Greedy

theorem allocate_fst (g : Greedy) (available : UInt64) : (g.allocate available).1 =
    (g.visits available).1.flatMap fun v => v.taken.map (·.id) := rfl

theorem allocate_snd (g : Greedy) (available : UInt64) :
    (g.allocate available).2 = (g.visits available).2 := rfl

theorem mem_allocate_iff {g : Greedy} {available : UInt64} {id : String} :
    id ∈ (g.allocate available).1 ↔
      ∃ v ∈ (g.visits available).1, id ∈ v.taken.map (·.id) := by
  rw [allocate_fst, List.mem_flatMap]

/-- No class is visited twice. -/
theorem Walked.visit_unique {g g' : Greedy} {top : Nat} {space : UInt64} {visits : List Visit}
    (h : Walked g top space visits g') {v w : Visit} (hv : v ∈ visits) (hw : w ∈ visits)
    (heq : v.sizeClass = w.sizeClass) : v = w := by
  obtain ⟨i, hi, rfl⟩ := List.mem_iff_getElem.1 hv
  obtain ⟨j, hj, rfl⟩ := List.mem_iff_getElem.1 hw
  have hlt := List.pairwise_iff_getElem.1 h.descending
  rcases Nat.lt_trichotomy i j with hij | rfl | hij
  · have := hlt i j hi hj hij
    omega
  · rfl
  · have := hlt j i hj hi hij
    omega

/-- No request changes the table. -/
theorem table_serve (g : Greedy) (r : Request) : (g.serve r).table = g.table := by
  cases r with
  | register id size =>
    rw [serve, register]
    split <;> rfl
  | unregister id =>
    rw [serve, unregister]
    split
    · rfl
    · simp only
      split <;> rfl
  | allocate available => exact table_walk g _ available

section Request
variable {g : Greedy} {t : Tracked}

/-- An entry taken is queued in the class visited, under the size it is registered with. -/
theorem Consistent.of_mem_taken (h : g.Consistent t) {available : UInt64} {v : Visit}
    (hv : v ∈ (g.visits available).1) {e : Entry} (he : e ∈ v.taken) :
    (g.queue v.sizeClass).get? e.id = some e ∧ t e.id = some e.size ∧
      g.table.classFor e.size = v.sizeClass := by
  have hq := h.sound v.sizeClass
  rw [(walked_visits h.size available).taken v hv] at he
  have hdrain : e ∈ (g.queue v.sizeClass).drain := by
    rw [drain_haul hq (g.lowerBound v.sizeClass) v.space]
    exact List.mem_append_left _ he
  have hg := (FairQueue.mem_drain_iff hq).1 hdrain
  exact ⟨hg, h.queued _ _ e hg⟩

/-- An id is chosen exactly if the visit to its class takes it. -/
theorem Consistent.mem_allocate_iff_of_visit (h : g.Consistent t) {available : UInt64}
    {v : Visit} (hv : v ∈ (g.visits available).1) {id : String} {size : UInt64}
    (ht : t id = some size) (hc : g.table.classFor size = v.sizeClass) :
    id ∈ (g.allocate available).1 ↔ id ∈ v.taken.map (·.id) := by
  rw [mem_allocate_iff]
  refine ⟨?_, fun hin => ⟨v, hv, hin⟩⟩
  rintro ⟨w, hw, hin⟩
  obtain ⟨e, he, rfl⟩ := List.mem_map.1 hin
  obtain ⟨-, hsize, hclass⟩ := h.of_mem_taken hw he
  rw [ht] at hsize
  cases hsize
  rwa [(walked_visits h.size available).visit_unique hv hw (hc.symm.trans hclass)]

/-- Every queue holds after a request what it held before, the ids chosen counted. -/
theorem get?_queue_allocate (h : g.Consistent t) (available : UInt64) (c : Nat) (id : String) :
    ((g.allocate available).2.queue c).get? id =
      ((g.queue c).get? id).map (tally (g.allocate available).1) := by
  have hwalk := walked_visits h.size available
  rw [allocate_snd]
  -- For an entry of the class, being taken on the visit to it is being chosen.
  have hagree : ∀ ids, (∀ e, (g.queue c).get? id = some e →
      (e.id ∈ ids ↔ e.id ∈ (g.allocate available).1)) →
      ((g.queue c).get? id).map (tally ids) =
        ((g.queue c).get? id).map (tally (g.allocate available).1) := by
    intro ids hids
    refine Option.map_congr fun e he => ?_
    simp only [tally, hids e he]
  have hqueued := fun e he => h.queued c id e he
  have hid : ∀ e, (g.queue c).get? id = some e → e.id = id :=
    fun e he => (h.sound c).indexed.id_of_get? he
  by_cases hvisit : ∃ v ∈ (g.visits available).1, v.sizeClass = c
  · obtain ⟨v, hv, rfl⟩ := hvisit
    rw [hwalk.visited v hv]
    refine (get?_putBack (h.sound _) _ _ id).trans (hagree _ fun e he => ?_)
    obtain ⟨hsize, hclass⟩ := hqueued e he
    rw [← hid e he] at hsize
    rw [h.mem_allocate_iff_of_visit hv hsize hclass, hwalk.taken v hv]
    rfl
  · rw [hwalk.skipped c fun v hv hc => hvisit ⟨v, hv, hc⟩]
    refine Eq.trans ?_ (hagree [] fun e he => ?_)
    · cases (g.queue c).get? id <;> rfl
    · refine ⟨fun hin => (List.not_mem_nil hin).elim, fun hin => ?_⟩
      obtain ⟨v, hv, hin⟩ := mem_allocate_iff.1 hin
      obtain ⟨a, ha, haid⟩ := List.mem_map.1 hin
      obtain ⟨-, hsize, hclass⟩ := h.of_mem_taken hv ha
      obtain ⟨hsize', hclass'⟩ := hqueued e he
      rw [haid, hid e he, hsize'] at hsize
      rw [Option.some.inj hsize] at hclass'
      exact absurd ⟨v, hv, hclass.symm.trans hclass'⟩ hvisit

theorem consistent_allocate (h : g.Consistent t) (available : UInt64) :
    (g.allocate available).2.Consistent t := by
  have hwalk := walked_visits h.size available
  have hget := get?_queue_allocate h available
  rw [allocate_snd] at hget ⊢
  constructor
  case size => rw [hwalk.size, h.size, hwalk.table]
  case sound =>
    intro c
    by_cases hvisit : ∃ v ∈ (g.visits available).1, v.sizeClass = c
    · obtain ⟨v, hv, rfl⟩ := hvisit
      rw [hwalk.visited v hv]
      exact sound_putBack (h.sound _) _ _
    · rw [hwalk.skipped c fun v hv hc => hvisit ⟨v, hv, hc⟩]
      exact h.sound c
  case placed =>
    intro id
    rw [hwalk.placed, hwalk.table]
    exact h.placed id
  case queued =>
    intro c id e he
    rw [hget c id] at he
    obtain ⟨a, ha, rfl⟩ := Option.map_eq_some_iff.1 he
    rw [tally_size, hwalk.table]
    exact h.queued c id a ha
  case found =>
    intro id size ht
    rw [hwalk.table, hget _ id, Option.isSome_map]
    exact h.found id size ht

/-- All a request does to the entries is to count those it chose. -/
theorem get?_allocate (h : g.Consistent t) (available : UInt64) (id : String) :
    (g.allocate available).2.get? id = (g.get? id).map (tally (g.allocate available).1) := by
  have h' := consistent_allocate h available
  have htable : (g.allocate available).2.table = g.table := (walked_visits h.size available).table
  cases ht : t id with
  | none =>
    rw [h.get?_of_none ht, h'.get?_of_none ht]
    rfl
  | some size =>
    rw [h.get?_of_some ht, h'.get?_of_some ht, htable]
    exact get?_queue_allocate h available _ id

/-- One request keeps the allocator in agreement with what is registered. -/
theorem consistent_serve (h : g.Consistent t) (r : Request) :
    (g.serve r).Consistent (t.next r) := by
  cases r with
  | register id size => exact consistent_register h id size
  | unregister id => exact consistent_unregister h id
  | allocate available => exact consistent_allocate h available

theorem consistent_serves (h : g.Consistent t) (requests : List Request) :
    (requests.foldl serve g).Consistent (requests.foldl Tracked.next t) ∧
      (requests.foldl serve g).table = g.table := by
  induction requests generalizing g t with
  | nil => exact ⟨h, rfl⟩
  | cons r rest ih =>
    obtain ⟨hrest, htable⟩ := ih (consistent_serve h r)
    exact ⟨hrest, htable.trans (table_serve g r)⟩

end Request

/-- Every run of requests keeps a new allocator in agreement with what is registered. -/
theorem consistent_after (table : SizeTable) (requests : List Request) :
    (after table requests).Consistent (Tracked.after requests) :=
  (consistent_serves (consistent_new table) requests).1

theorem table_after (table : SizeTable) (requests : List Request) :
    (after table requests).table = table :=
  (consistent_serves (consistent_new table) requests).2

/-! ### Capacity -/

section Capacity
variable {g : Greedy} {t : Tracked}

theorem Consistent.nodup_taken (h : g.Consistent t) {available : UInt64} {v : Visit}
    (hv : v ∈ (g.visits available).1) : (v.taken.map (·.id)).Nodup := by
  have hq := h.sound v.sizeClass
  have hnodup := FairQueue.drain_nodup hq
  rw [drain_haul hq (g.lowerBound v.sizeClass) v.space, List.map_append] at hnodup
  rw [(walked_visits h.size available).taken v hv]
  exact (List.nodup_append.1 hnodup).1

theorem Consistent.nodup_allocate (h : g.Consistent t) (available : UInt64) :
    (g.allocate available).1.Nodup := by
  have hwalk := walked_visits h.size available
  rw [allocate_fst, List.Nodup, List.pairwise_flatMap]
  refine ⟨fun v hv => h.nodup_taken hv, hwalk.descending.imp_of_mem ?_⟩
  rintro v w hv hw hlt id hidv _ hidw rfl
  obtain ⟨a, ha, rfl⟩ := List.mem_map.1 hidv
  obtain ⟨b, hb, hid⟩ := List.mem_map.1 hidw
  obtain ⟨-, hsize, hclass⟩ := h.of_mem_taken hv ha
  obtain ⟨-, hsize', hclass'⟩ := h.of_mem_taken hw hb
  rw [hid, hsize] at hsize'
  rw [Option.some.inj hsize'] at hclass
  omega

/-- A chosen id is tracked, and its class is one the space reaches. -/
theorem Consistent.class_of_mem (h : g.Consistent t) {available : UInt64} {id : String}
    (hid : id ∈ (g.allocate available).1) :
    ∃ size, t id = some size ∧ 1 ≤ g.table.classFor size ∧
      g.table.classFor size ≤ g.table.reach available := by
  obtain ⟨v, hv, hin⟩ := mem_allocate_iff.1 hid
  obtain ⟨e, he, rfl⟩ := List.mem_map.1 hin
  obtain ⟨-, hsize, hclass⟩ := h.of_mem_taken hv he
  refine ⟨e.size, hsize, ?_⟩
  rw [hclass]
  exact (walked_visits h.size available).range v hv

/-- Ids chosen later are of no higher class. -/
theorem Consistent.classes_descend (h : g.Consistent t) (available : UInt64) :
    (g.allocate available).1.Pairwise fun a b =>
      ∀ c d, g.placed[a]? = some c → g.placed[b]? = some d → d ≤ c := by
  have hwalk := walked_visits h.size available
  have hplaced : ∀ v ∈ (g.visits available).1, ∀ id ∈ v.taken.map (·.id),
      g.placed[id]? = some v.sizeClass := by
    intro v hv id hid
    obtain ⟨e, he, rfl⟩ := List.mem_map.1 hid
    obtain ⟨-, hsize, hclass⟩ := h.of_mem_taken hv he
    rw [h.placed, hsize, Option.map_some, hclass]
  rw [allocate_fst, List.pairwise_flatMap]
  refine ⟨fun v hv => List.pairwise_of_forall_mem_list fun a ha b hb c d hc hd => ?_,
    hwalk.descending.imp_of_mem fun {v w} hv hw hlt a ha b hb c d hc hd => ?_⟩
  · rw [hplaced v hv a ha] at hc
    rw [hplaced v hv b hb] at hd
    cases hc
    cases hd
    exact Nat.le_refl _
  · rw [hplaced v hv a ha] at hc
    rw [hplaced w hw b hb] at hd
    cases hc
    cases hd
    exact Nat.le_of_lt hlt

/-- The registered sizes of the ids chosen are what the visits spent. -/
theorem Consistent.bytes_allocate (h : g.Consistent t) (available : UInt64) :
    t.bytes (g.allocate available).1 = spent (g.visits available).1 := by
  have hvisit : ∀ v ∈ (g.visits available).1,
      t.bytes (v.taken.map (·.id)) = bytes v.taken := by
    intro v hv
    have hsizes := fun e he => (h.of_mem_taken hv (e := e) he).2.1
    generalize v.taken = es at hsizes
    induction es with
    | nil => rfl
    | cons e es ih =>
      rw [List.map_cons, Tracked.bytes_cons, bytes_cons, hsizes e (List.mem_cons_self ..),
        ih fun a ha => hsizes a (List.mem_cons_of_mem _ ha)]
      rfl
  rw [allocate_fst]
  generalize (g.visits available).1 = visits at hvisit
  induction visits with
  | nil => rfl
  | cons v rest ih =>
    rw [List.flatMap_cons, Tracked.bytes_append, spent_cons, hvisit v (List.mem_cons_self ..),
      ih fun w hw => hvisit w (List.mem_cons_of_mem _ hw)]

end Capacity

/-- **A request never overcommits the space.** After any run of requests on a new
allocator, the ids chosen for `available` bytes are distinct; each is tracked and placed in
the class of its registered size, one from 1 to what the space reaches; the classes
descend; and the registered sizes add up, exactly, to at most the space. On every visit the
class has a queue and a threshold beneath it, the space entered with is exactly what
earlier visits left, and it covers each entry taken on top of those taken before it. -/
theorem allocate_within_capacity (table : SizeTable) (requests : List Request)
    (available : UInt64) :
    let g := after table requests
    let t := Tracked.after requests
    (g.allocate available).1.Nodup ∧
    (∀ id ∈ (g.allocate available).1, ∃ size, t id = some size ∧
      g.placed[id]? = some (table.classFor size) ∧
      1 ≤ table.classFor size ∧ table.classFor size ≤ table.reach available) ∧
    ((g.allocate available).1.Pairwise fun a b =>
      ∀ c d, g.placed[a]? = some c → g.placed[b]? = some d → d ≤ c) ∧
    t.bytes (g.allocate available).1 ≤ available.toNat ∧
    ∀ before v after, (g.visits available).1 = before ++ v :: after →
      1 ≤ v.sizeClass ∧ v.sizeClass < g.queues.size ∧
      (table.bound? (v.sizeClass - 1)).isSome = true ∧
      v.space.toNat + spent before = available.toNat ∧
      ∀ done e rest, v.taken = done ++ e :: rest → bytes done + e.size.toNat ≤ v.space.toNat := by
  intro g t
  have h : g.Consistent t := consistent_after table requests
  have htable : g.table = table := table_after table requests
  have hwalk := walked_visits h.size available
  refine ⟨h.nodup_allocate available, fun id hid => ?_, h.classes_descend available, ?_, ?_⟩
  · obtain ⟨size, hsize, hpos, hreach⟩ := h.class_of_mem hid
    rw [htable] at hpos hreach
    refine ⟨size, hsize, ?_, hpos, hreach⟩
    rw [h.placed id, hsize, htable]
    rfl
  · rw [h.bytes_allocate]
    exact hwalk.covered
  · intro before v rest hsplit
    have hv : v ∈ (g.visits available).1 := by
      rw [hsplit]
      exact List.mem_append_right _ (List.mem_cons_self ..)
    have hrange := hwalk.range v hv
    have hreach := g.table.reach_lt available
    have hqueue : v.sizeClass < g.table.size := by omega
    refine ⟨hrange.1, by rw [h.size]; exact hqueue, ?_, hwalk.entered before v rest hsplit, ?_⟩
    · rw [SizeTable.bound?_isSome, ← htable]
      omega
    · intro done e later htaken
      have hle : bytes v.taken ≤ v.space.toNat := by
        rw [hwalk.taken v hv]
        exact Nat.le.intro ((Nat.add_comm _ _).trans (space_haul _ _ _))
      rw [htaken, bytes_append, bytes_cons] at hle
      omega

end EdgePlacement.Greedy
