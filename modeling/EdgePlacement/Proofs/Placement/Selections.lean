import EdgePlacement.Proofs.Placement.Fairness

/-!
What the counts count.

The answers to a run, kept in order, tell how often an id was chosen since it was
registered last. They tell it without the queues, where a count goes with an entry that is
taken out, changed and put back. The two agree after every run (`counts_selections`). A
single request raises the counts of the ids it answers with and no others: an entry that
was too large for its visit, one that the visit did not come to and one of a class that was
not visited keep theirs (`count?_of_left`, `count?_of_unvisited`). -/
namespace EdgePlacement

/-- A request together with its answer. -/
inductive Answered where
  | registered (id : String) (size : UInt64) (result : Except Failure Unit)
  | unregistered (id : String) (result : Except Failure Unit)
  | allocated (available : UInt64) (ids : List String)

namespace Answered

/-- Whether the id was registered, and not refused. -/
def accepts (id : String) : Answered → Bool
  | .registered other _ (.ok _) => other = id
  | .registered _ _ (.error _) => false
  | .unregistered _ _ => false
  | .allocated _ _ => false

/-- Whether space was requested and the id is in the answer. -/
def chooses (id : String) : Answered → Bool
  | .registered _ _ _ => false
  | .unregistered _ _ => false
  | .allocated _ ids => id ∈ ids

/-- What was answered after the last registration of an id that was not refused, the latest
first. -/
def since (id : String) (answers : List Answered) : List Answered :=
  answers.reverse.takeWhile fun a => !a.accepts id

/-- How many of the answers after the last registration of an id choose it. -/
def selections (id : String) (answers : List Answered) : Nat :=
  (since id answers).countP (chooses id)

section Concat
variable {id : String} {a : Answered} (answers : List Answered)

theorem selections_of_accepts (h : a.accepts id = true) :
    selections id (answers ++ [a]) = 0 := by
  simp [selections, since, h]

theorem selections_of_not_accepts (h : a.accepts id = false) :
    selections id (answers ++ [a]) = selections id answers + if a.chooses id then 1 else 0 := by
  simp [selections, since, h, List.countP_cons]

end Concat
end Answered

namespace Greedy

def answered (g : Greedy) : Request → Answered
  | .register id size => .registered id size (g.register id size).1
  | .unregister id => .unregistered id (g.unregister id).1
  | .allocate available => .allocated available (g.allocate available).1

/-- The requests of a run with their answers. -/
def answers (g : Greedy) : List Request → List Answered
  | [] => []
  | r :: rest => g.answered r :: (g.serve r).answers rest

theorem answers_append (g : Greedy) (a b : List Request) :
    g.answers (a ++ b) = g.answers a ++ (a.foldl serve g).answers b := by
  induction a generalizing g with
  | nil => rfl
  | cons r rest ih => exact congrArg _ (ih (g.serve r))

theorem chooses_answered (g : Greedy) (r : Request) (id : String) :
    (g.answered r).chooses id = true ↔ id ∈ g.chosen r := by
  cases r <;> simp [answered, Answered.chooses, chosen]

section Selections
variable {g : Greedy} {t : Tracked}

/-! ### Entries passed over -/

/-- An entry whose id is not in the answer keeps its count. -/
theorem Consistent.count?_of_notMem (h : g.Consistent t) {available : UInt64} {id : String}
    (hid : id ∉ (g.allocate available).1) :
    (g.allocate available).2.count? id = g.count? id := by
  unfold count?
  rw [get?_allocate h]
  cases hg : g.get? id with
  | none => rfl
  | some e =>
    have heid : e.id = id := (h.sound _).indexed.id_of_get? (h.get?_eq_some_iff.1 hg)
    rw [Option.map_some, tally, if_neg (by rw [heid]; exact hid)]

/-- The entry that is too large for a visit and those behind it are not in the answer. -/
theorem Consistent.count?_of_left (h : g.Consistent t) {available : UInt64} {v : Visit}
    (hv : v ∈ (g.visits available).1) {e : Entry}
    (he : e ∈ (g.visit v.sizeClass v.space).tooLarge.toList ++
      (g.visit v.sizeClass v.space).rest.drain) :
    e.id ∉ (g.allocate available).1 ∧
      (g.allocate available).2.count? e.id = some e.count := by
  have hq := h.sound v.sizeClass
  have hdrain : (g.queue v.sizeClass).drain = (g.visit v.sizeClass v.space).taken ++
      ((g.visit v.sizeClass v.space).tooLarge.toList ++
        (g.visit v.sizeClass v.space).rest.drain) := drain_haul hq _ _
  have hqueued : (g.queue v.sizeClass).get? e.id = some e := by
    rw [← FairQueue.mem_drain_iff hq, hdrain]
    exact List.mem_append_right _ he
  obtain ⟨hsize, hclass⟩ := h.queued _ _ _ hqueued
  have hout : e.id ∉ (g.allocate available).1 := by
    rw [h.mem_allocate_iff_of_visit hv hsize hclass,
      (walked_visits h.size available).taken v hv]
    have hnodup := FairQueue.drain_nodup hq
    rw [hdrain, List.map_append, List.nodup_append] at hnodup
    exact fun hin => hnodup.2.2 e.id hin e.id (List.mem_map_of_mem he) rfl
  refine ⟨hout, ?_⟩
  rw [h.count?_of_notMem hout, count?, h.get?_eq_some_iff.2 (by rw [hclass]; exact hqueued)]
  rfl

/-- No entry of a class that was not visited is in the answer. -/
theorem Consistent.count?_of_unvisited (h : g.Consistent t) {available : UInt64} {c : Nat}
    (hc : ∀ v ∈ (g.visits available).1, v.sizeClass ≠ c) {id : String} {size : UInt64}
    (ht : t id = some size) (hclass : g.table.classFor size = c) :
    id ∉ (g.allocate available).1 ∧ (g.allocate available).2.count? id = g.count? id := by
  have hout : id ∉ (g.allocate available).1 := by
    intro hin
    obtain ⟨v, hv, htaken⟩ := mem_allocate_iff.1 hin
    obtain ⟨e, he, rfl⟩ := List.mem_map.1 htaken
    obtain ⟨-, hsize, hcl⟩ := h.of_mem_taken hv he
    rw [ht] at hsize
    cases hsize
    exact hc v hv (hcl.symm.trans hclass)
  exact ⟨hout, h.count?_of_notMem hout⟩

/-! ### Requests refused and accepted -/

/-- A registration that is refused changes nothing, and one that is not starts at 0. -/
theorem Consistent.count?_register (h : g.Consistent t) (id : String) (size : UInt64) :
    (∀ e, (g.register id size).1 = .error e → (g.register id size).2 = g) ∧
    ((g.register id size).1 = .ok () → (g.register id size).2.count? id = some 0 ∧
      ∀ other, other ≠ id → (g.register id size).2.count? other = g.count? other) := by
  have hget := get?_register h id size
  cases ht : t id with
  | some old =>
    rw [register_of_tracked h (by rw [ht]; rfl)]
    exact ⟨fun _ _ => rfl, fun hok => by cases hok⟩
  | none =>
    refine ⟨fun e he => ?_, fun _ => ⟨?_, fun other ho => ?_⟩⟩
    · rw [register_of_untracked h ht] at he
      cases he
    · rw [count?, hget, if_pos ⟨rfl, ht⟩]
      rfl
    · rw [count?, hget, if_neg fun hand => ho hand.1]
      rfl

theorem Consistent.count?_unregister (h : g.Consistent t) (id : String) :
    (∀ e, (g.unregister id).1 = .error e → (g.unregister id).2 = g) ∧
    ∀ other, other ≠ id → (g.unregister id).2.count? other = g.count? other := by
  constructor
  · intro e he
    cases ht : t id with
    | none => rw [unregister_of_untracked h ht]
    | some size =>
      obtain ⟨_, _, -, -, hun⟩ := unregister_of_tracked h ht
      rw [hun] at he
      cases he
  · intro other ho
    rw [count?, get?_unregister h, if_neg ho]
    rfl

/-! ### Runs -/

/-- The tracked ids have a count, which is how often they were chosen since they were
registered, and the others have none. -/
def Counted (g : Greedy) (t : Tracked) (answers : List Answered) : Prop :=
  ∀ id, (g.count? id).map UInt64.toNat =
    if (t id).isSome then some (Answered.selections id answers) else none

theorem Consistent.count?_isSome (h : g.Consistent t) (id : String) :
    (g.count? id).isSome = (t id).isSome := by
  rw [← h.size_get? id, count?, Option.isSome_map, Option.isSome_map]

/-- Only an id that is not tracked is registered. -/
theorem Consistent.eq_none_of_accepts (h : g.Consistent t) {r : Request} {id : String}
    (ha : (g.answered r).accepts id = true) : t id = none := by
  cases r with
  | register other size =>
    cases ht : t other with
    | some old =>
      rw [answered, register_of_tracked h (by rw [ht]; rfl)] at ha
      cases ha
    | none =>
      rw [answered, register_of_untracked h ht] at ha
      rw [← of_decide_eq_true ha, ht]
  | unregister other => cases ha
  | allocate available => cases ha

/-- An id becomes tracked by being registered. -/
theorem Consistent.accepts_of_next (h : g.Consistent t) {r : Request} {id : String}
    (ht : t id = none) (hnext : (t.next r id).isSome = true) :
    (g.answered r).accepts id = true ∧ (g.serve r).count? id = some 0 := by
  cases r with
  | register other size =>
    have hid : id = other := by
      by_contra hne
      cases hother : t other <;> simp [Tracked.next, hother, t.set_of_ne _ hne, ht] at hnext
    subst hid
    have hok : (g.register id size).1 = .ok () := by rw [register_of_untracked h ht]
    refine ⟨?_, ((h.count?_register id size).2 hok).1⟩
    rw [answered, hok]
    exact decide_eq_true rfl
  | unregister other =>
    by_cases hid : id = other
    · simp [Tracked.next, hid] at hnext
    · simp [Tracked.next, t.set_of_ne _ hid, ht] at hnext
  | allocate available => simp [Tracked.next, ht] at hnext

/-- One request keeps the counts in step with the answers. -/
theorem Consistent.counted_serve (h : g.Consistent t) {r : Request} {answers : List Answered}
    (hroom : ∀ id e, g.get? id = some e → e.count.toNat + Request.calls [r] < UInt64.size)
    (hcounted : g.Counted t answers) :
    (g.serve r).Counted (t.next r) (answers ++ [g.answered r]) := by
  intro id
  have h' := consistent_serve h r
  by_cases hstays : (t.next r id).isSome = true
  case neg =>
    have hnone := h'.count?_isSome id
    rw [Bool.not_eq_true] at hstays
    rw [hstays, Option.isSome_eq_false_iff, Option.isNone_iff_eq_none] at hnone
    rw [hnone, hstays]
    rfl
  rw [if_pos hstays]
  cases ht : t id with
  | none =>
    obtain ⟨haccepts, hzero⟩ := h.accepts_of_next ht hstays
    rw [Answered.selections_of_accepts answers haccepts, hzero]
    rfl
  | some size =>
    obtain ⟨e, he, hid, -⟩ := h.exists_entry ht
    have haccepts : (g.answered r).accepts id = false := by
      by_contra hcon
      rw [h.eq_none_of_accepts (by simpa using hcon)] at ht
      cases ht
    have hbefore := hcounted id
    rw [ht, count?, he] at hbefore
    have hcount : e.count.toNat = Answered.selections id answers := Option.some.inj hbefore
    have hmore : e.id ∈ g.chosen r → e.count.toNat + 1 < UInt64.size := by
      intro hin
      obtain ⟨available, rfl⟩ := eq_allocate_of_mem_chosen hin
      exact hroom id e he
    have hafter : (g.serve r).count? id = some (tally (g.chosen r) e).count := by
      rw [count?, h.get?_serve (by rw [ht]; rfl) hstays, he]
      rfl
    rw [hafter, Option.map_some, count_tally hmore, hid, hcount,
      Answered.selections_of_not_accepts answers haccepts]
    simp only [chooses_answered]

end Selections

theorem counted_new (table : SizeTable) : (new table).Counted Tracked.none [] := by
  intro id
  rw [count?, (consistent_new table).get?_of_none rfl]
  rfl

/-- A run with room for its requests for space keeps the counts in step. -/
theorem counted_after (table : SizeTable) (requests : List Request)
    (hfew : Request.calls requests < UInt64.size) :
    (after table requests).Counted (Tracked.after requests) ((new table).answers requests) := by
  induction requests using List.reverseRecOn with
  | nil => exact counted_new table
  | append_singleton soFar r ih =>
    rw [Request.calls_append] at hfew
    have h := consistent_after table soFar
    have hroom : ∀ id e, (after table soFar).get? id = some e →
        e.count.toNat + Request.calls [r] < UInt64.size := by
      intro id e he
      have := count_after_le table soFar id e he
      omega
    rw [after_append, Tracked.after_append, answers_append]
    exact h.counted_serve hroom (ih (by omega))

/-- What one more request does to the counts. -/
structure Recounts (g : Greedy) (t : Tracked) : Prop where
  /-- A request for space counts the ids of its answer only. -/
  unchosen : ∀ available id, id ∉ (g.allocate available).1 →
    (g.allocate available).2.count? id = g.count? id
  /-- The entry that is too large for a visit and those behind it in the queue. -/
  left : ∀ available, ∀ v ∈ (g.visits available).1,
    ∀ e ∈ (g.visit v.sizeClass v.space).tooLarge.toList ++
      (g.visit v.sizeClass v.space).rest.drain,
    e.id ∉ (g.allocate available).1 ∧ (g.allocate available).2.count? e.id = some e.count
  unvisited : ∀ available id size, t id = some size →
    (∀ v ∈ (g.visits available).1, v.sizeClass ≠ g.table.classFor size) →
    id ∉ (g.allocate available).1 ∧ (g.allocate available).2.count? id = g.count? id
  registered : ∀ id size, (g.register id size).1 = .ok () →
    (g.register id size).2.count? id = some 0 ∧
      ∀ other, other ≠ id → (g.register id size).2.count? other = g.count? other
  unregistered : ∀ id other, other ≠ id → (g.unregister id).2.count? other = g.count? other
  /-- A registration or a removal that is refused changes nothing. -/
  refused : ∀ id e, (∀ size, (g.register id size).1 = .error e → (g.register id size).2 = g) ∧
    ((g.unregister id).1 = .error e → (g.unregister id).2 = g)

theorem Consistent.recounts {g : Greedy} {t : Tracked} (h : g.Consistent t) : g.Recounts t where
  unchosen _ _ := h.count?_of_notMem
  left _ _ hv _ := h.count?_of_left hv
  unvisited _ _ _ ht hc := h.count?_of_unvisited hc ht rfl
  registered id size := (h.count?_register id size).2
  unregistered id := (h.count?_unregister id).2
  refused id e := ⟨fun size => (h.count?_register id size).1 e, (h.count?_unregister id).1 e⟩

/-- **Counts are selections.** After a run with fewer than 2⁶⁴ requests for space exactly the
tracked ids have a count, and the count is the number of answers that name the id since its
last registration that was not refused. One more request changes only what it has to: the
counts of the ids it answers with, or that of the id it registers or removes, if it is not
refused. -/
theorem counts_selections (table : SizeTable) (requests : List Request)
    (hfew : Request.calls requests < UInt64.size) :
    let g := after table requests
    (∀ id, g.count? id = none ↔ g.placed.contains id = false) ∧
    (∀ id, g.placed.contains id = true → (g.count? id).map UInt64.toNat =
      some (Answered.selections id ((new table).answers requests))) ∧
    g.Recounts (Tracked.after requests) := by
  intro g
  have h : g.Consistent (Tracked.after requests) := consistent_after table requests
  refine ⟨fun id => ?_, fun id hid => ?_, h.recounts⟩
  · rw [h.contains_placed, ← h.count?_isSome, Option.isSome_eq_false_iff,
      Option.isNone_iff_eq_none]
  · rw [h.contains_placed] at hid
    rw [counted_after table requests hfew id, if_pos hid]

/-- An id that is chosen, refused a second registration, removed and registered again. -/
theorem counts_selections_again :
    let table := SizeTable.ofList [100]
    let requests := [.register "a" 60, .register "b" 70, .allocate 100, .allocate 200,
      .register "a" 1, .unregister "a", .register "a" 80, .allocate 100, .allocate 90]
    Request.calls requests < UInt64.size ∧
    (after table requests).placed.contains "a" = true ∧
    ((after table requests).count? "a").map UInt64.toNat =
      some (Answered.selections "a" ((new table).answers requests)) := by
  intro table requests
  have hfew : Request.calls requests < UInt64.size := by decide
  have htracked : (after table requests).placed.contains "a" = true := by
    rw [(consistent_after table requests).contains_placed]
    decide
  exact ⟨hfew, htracked, (counts_selections table requests hfew).2.1 "a" htracked⟩

end Greedy
end EdgePlacement
