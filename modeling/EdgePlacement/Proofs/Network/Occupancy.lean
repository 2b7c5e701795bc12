import EdgePlacement.Proofs.Network.Service

/-!
Who is at a site.

A site holds a finite set of ids: its allocator tracks exactly these, its live count is
their number, and it is empty exactly if the set is (`Holds`). Registration raises the count
before the allocator is asked and a refusal lowers it again, which ends the site only if it
was just made; so every call, refused or not, leaves a site that holds what the call says
it should. Since all allocators ask under one key, a round of cycles that stops at a failure
has passed over no site at which it would have changed anything (`site_cycleIn`). -/
namespace EdgePlacement

/-! ### Ids an allocator tracks -/

/-- The allocator tracks exactly these ids. -/
def Allocator.Keeps (key : String) (a : Allocator) (ids : Finset String) : Prop :=
  ∃ t, a.Tracks key t ∧ ∀ id, id ∈ ids ↔ (t id).isSome = true

namespace Allocator

section Keeps
variable {key : String} {a : Allocator} {ids : Finset String}

theorem keeps_new (h : a.New key) : a.Keeps key ∅ :=
  ⟨.none, tracks_new h, fun id => by simp [Tracked.none]⟩

theorem Keeps.register (h : a.Keeps key ids) (id : String) (size : UInt64) :
    (a.register id size).1 = (if id ∈ ids then .error (.duplicateEntry id) else .ok ()) ∧
      (a.register id size).2.Keeps key (insert id ids) := by
  obtain ⟨t, ht, hids⟩ := h
  obtain ⟨hanswer, hnext⟩ := ht.register id size
  refine ⟨by simp only [hanswer, hids], _, hnext, fun other => ?_⟩
  rw [Finset.mem_insert, hids, Tracked.next]
  by_cases hid : (t id).isSome = true
  · rw [if_pos hid, or_iff_right_iff_imp]
    rintro rfl
    exact hid
  · rw [if_neg hid]
    by_cases ho : other = id
    · simp [ho]
    · simp [ho, t.set_of_ne _ ho]

theorem Keeps.isSome_bytes?_iff (h : a.Keeps key ids) (id : String) :
    (a.bytes? id).isSome = true ↔ id ∈ ids := by
  obtain ⟨t, ht, hids⟩ := h
  rw [ht.bytes?_eq, hids]

/-- A registration gives a size to an id that has none, and to no other. -/
theorem Keeps.bytes?_register (h : a.Keeps key ids) (id : String) (size : UInt64)
    (other : String) : (a.register id size).2.bytes? other =
      if other = id ∧ id ∉ ids then some size else a.bytes? other := by
  obtain ⟨t, ht, hids⟩ := h
  rw [(ht.register id size).2.bytes?_eq, ht.bytes?_eq, Tracked.next]
  by_cases hid : id ∈ ids
  · rw [if_pos ((hids id).1 hid), if_neg fun hand => hand.2 hid]
  · rw [if_neg fun hsome => hid ((hids id).2 hsome)]
    by_cases ho : other = id
    · rw [if_pos ⟨ho, hid⟩, ho, t.set_self]
    · rw [if_neg fun hand => ho hand.1, t.set_of_ne _ ho]

theorem Keeps.unregister (h : a.Keeps key ids) (id : String) :
    (a.unregister id).1 = (if id ∈ ids then .ok () else .error (.notFound id)) ∧
      (a.unregister id).2.Keeps key (ids.erase id) := by
  obtain ⟨t, ht, hids⟩ := h
  obtain ⟨hanswer, hnext⟩ := ht.unregister id
  refine ⟨by simp only [hanswer, hids], _, hnext, fun other => ?_⟩
  rw [Finset.mem_erase, hids, Tracked.next]
  by_cases ho : other = id
  · simp [ho]
  · simp [ho, t.set_of_ne _ ho]

theorem Keeps.allocate (h : a.Keeps key ids) (available : UInt64) :
    (a.allocate available).2.Keeps key ids := by
  obtain ⟨t, ht, hids⟩ := h
  exact ⟨t, ht.allocate available, hids⟩

theorem Keeps.cycle (h : a.Keeps key ids) (coordinator : Coordinator) :
    (a.cycle coordinator).2.Keeps key ids := by
  obtain ⟨t, ht, hids⟩ := h
  exact ⟨t, ht.cycle coordinator, hids⟩

theorem Keeps.tick (h : a.Keeps key ids) (coordinator : Coordinator) :
    (a.tick coordinator).Keeps key ids := by
  cases a with
  | greedy g => exact h
  | prepared p =>
    have hcycle := h.cycle coordinator
    rw [cycle_prepared] at hcycle
    show (prepared (p.tick coordinator)).Keeps key ids
    unfold Prepared.tick
    split
    · exact hcycle
    · exact h

theorem Keeps.size_eq (h : a.Keeps key ids) : a.size = ids.card := by
  obtain ⟨t, ht, hids⟩ := h
  exact ht.size_eq hids

end Keeps
end Allocator

/-! ### Ids at a site -/

namespace Site

/-- The site holds exactly these ids. -/
inductive Holds (key : String) : Site → Finset String → Prop where
  | empty : Holds key none ∅
  | live {a : Allocator} {ids : Finset String} (nonempty : ids.Nonempty)
    (keeps : a.Keeps key ids) : Holds key (some (a, ids.card)) ids

section Holds
variable {key : String} {site : Site} {ids : Finset String}

theorem Holds.isSome_iff (h : site.Holds key ids) : site.isSome = true ↔ ids.Nonempty := by
  cases h with
  | empty => simp
  | live nonempty keeps => simp [nonempty]

theorem Holds.isSome_bytes?_iff (h : site.Holds key ids) (id : String) :
    (site.bytes? id).isSome = true ↔ id ∈ ids := by
  cases h with
  | empty => simp [bytes?]
  | live nonempty keeps => exact keeps.isSome_bytes?_iff id

theorem Holds.live_eq (h : site.Holds key ids) : site.live = ids.card := by
  cases h with
  | empty => rfl
  | live nonempty keeps => rfl

/-- Lowering the count by one makes it the number of ids. -/
theorem holds_release {a : Allocator} (h : a.Keeps key ids) :
    (release a (ids.card + 1)).Holds key ids := by
  unfold release
  rw [Nat.add_sub_cancel]
  split
  · next hzero =>
    rw [Finset.card_eq_zero.1 hzero]
    exact .empty
  · next hpos => exact .live (Finset.card_pos.1 (Nat.pos_of_ne_zero hpos)) h

/-- Opening a site that holds ids, or one that holds none where an allocator is made. -/
theorem Holds.opened (h : site.Holds key ids) {made : Except Failure Allocator}
    (hmade : ∀ a, made = .ok a → a.Keeps key ∅) {a : Allocator} {live : Nat}
    (hopen : site.opened made = .ok (a, live)) : a.Keeps key ids ∧ live = ids.card := by
  cases h with
  | empty =>
    cases made with
    | error e => cases hopen
    | ok made =>
      cases hopen
      exact ⟨hmade _ rfl, rfl⟩
  | live nonempty keeps =>
    cases hopen
    exact ⟨keeps, rfl⟩

/-- Opening a site does not change what is there. -/
theorem Holds.bytes?_opened (h : site.Holds key ids) {made : Except Failure Allocator}
    (hmade : ∀ a, made = .ok a → a.Keeps key ∅) {a : Allocator} {live : Nat}
    (hopen : site.opened made = .ok (a, live)) (id : String) :
    a.bytes? id = site.bytes? id := by
  cases h with
  | empty =>
    cases made with
    | error e => cases hopen
    | ok made =>
      cases hopen
      exact Option.not_isSome_iff_eq_none.1 fun hsome =>
        Finset.notMem_empty id (((hmade _ rfl).isSome_bytes?_iff id).1 hsome)
  | live nonempty keeps =>
    cases hopen
    rfl

theorem release_of_pos (a : Allocator) {live : Nat} (hpos : 0 < live) :
    release a (live + 1) = some (a, live) := by
  unfold release
  rw [Nat.add_sub_cancel, if_neg (Nat.ne_of_gt hpos)]

/-- Everything a registration can do. It is refused where the id is there, or where nothing
is there and nothing can be made, and changes no size then; otherwise it is accepted and
gives its id a size. -/
theorem Holds.register_cases (h : site.Holds key ids) {made : Except Failure Allocator}
    (hmade : ∀ a, made = .ok a → a.Keeps key ∅) (id : String) (size : UInt64) :
    (∃ e here, site.register made id size = (.error e, here) ∧ here.Holds key ids ∧
        (∀ other, here.bytes? other = site.bytes? other) ∧
        (e = .duplicateEntry id ∧ id ∈ ids ∨ id ∉ ids ∧ site = none ∧ made = .error e)) ∨
      ∃ here opened, site.register made id size = (.ok (), here) ∧ id ∉ ids ∧
        site.opened made = .ok opened ∧ here.Holds key (insert id ids) ∧
        ∀ other, here.bytes? other = if other = id then some size else site.bytes? other := by
  unfold Site.register
  cases hopen : site.opened made with
  | error e =>
    cases h with
    | empty =>
      refine .inl ⟨e, none, rfl, .empty, fun _ => rfl, .inr ⟨Finset.notMem_empty id, rfl, ?_⟩⟩
      cases made with
      | error e' =>
        cases hopen
        rfl
      | ok a => cases hopen
    | live nonempty keeps => cases hopen
  | ok opened =>
    obtain ⟨a, live⟩ := opened
    obtain ⟨hkeeps, rfl⟩ := h.opened hmade hopen
    obtain ⟨hanswer, hnext⟩ := hkeeps.register id size
    have hbytes := hkeeps.bytes?_register id size
    simp only [h.bytes?_opened hmade hopen] at hbytes
    simp only
    rcases hx : a.register id size with ⟨answer, a'⟩
    rw [hx] at hanswer hnext hbytes
    subst hanswer
    by_cases hid : id ∈ ids
    · -- An id is there, so lowering the count does not end the site.
      have hrelease := release_of_pos a' (Finset.card_pos.2 ⟨id, hid⟩)
      rw [Finset.insert_eq_of_mem hid] at hnext
      rw [if_pos hid]
      refine .inl ⟨_, _, rfl, holds_release hnext, fun other => ?_, .inl ⟨rfl, hid⟩⟩
      rw [hrelease]
      exact (hbytes other).trans (if_neg fun hand => hand.2 hid)
    · rw [if_neg hid]
      refine .inr ⟨_, _, rfl, hid, rfl, ?_, fun other => ?_⟩
      · rw [← Finset.card_insert_of_notMem hid]
        exact .live (Finset.insert_nonempty id ids) hnext
      · exact (hbytes other).trans (by simp only [hid, not_false_eq_true, and_true])

theorem Holds.register (h : site.Holds key ids) {made : Except Failure Allocator}
    (hmade : ∀ a, made = .ok a → a.Keeps key ∅) (id : String) (size : UInt64) :
    (site.register made id size).1 =
        (if id ∈ ids then .error (.duplicateEntry id)
          else (site.opened made).map fun _ => ()) ∧
      (site.register made id size).2.Holds key
        (if (site.opened made).isOk then insert id ids else ids) := by
  rcases h.register_cases hmade id size with
    ⟨e, here, hcall, hhere, -, ⟨rfl, hid⟩ | ⟨hid, rfl, rfl⟩⟩ |
      ⟨here, opened, hcall, hid, hopen, hhere, -⟩
  · rw [hcall, if_pos hid, Finset.insert_eq_of_mem hid, ite_self]
    exact ⟨rfl, hhere⟩
  · rw [hcall, if_neg hid]
    exact ⟨rfl, hhere⟩
  · rw [hcall, if_neg hid, hopen]
    exact ⟨rfl, hhere⟩

theorem Holds.unregister (h : site.Holds key ids) (location id : String) :
    (site.unregister location id).1 =
        (if site.isSome then if id ∈ ids then .ok () else .error (.notFound id)
          else .error (.unknownLocation location)) ∧
      (site.unregister location id).2.Holds key (ids.erase id) := by
  cases h with
  | empty => exact ⟨rfl, .empty⟩
  | @live a ids nonempty keeps =>
    obtain ⟨hanswer, hnext⟩ := keeps.unregister id
    simp only [Site.unregister]
    rcases hx : a.unregister id with ⟨answer, a'⟩
    rw [hx] at hanswer hnext
    subst hanswer
    by_cases hid : id ∈ ids
    · simp only [if_pos hid]
      refine ⟨rfl, ?_⟩
      rw [← Finset.card_erase_add_one hid]
      exact holds_release hnext
    · rw [Finset.erase_eq_of_notMem hid] at hnext ⊢
      simp only [if_neg hid]
      exact ⟨rfl, .live nonempty hnext⟩

theorem Holds.allocate (h : site.Holds key ids) (location : String) (available : UInt64) :
    (site.allocate location available).2.Holds key ids := by
  cases h with
  | empty => exact .empty
  | live nonempty keeps => exact .live nonempty (keeps.allocate available)

theorem Holds.cycle (h : site.Holds key ids) (coordinator : Coordinator) :
    (site.cycle coordinator).Holds key ids := by
  cases h with
  | empty => exact .empty
  | live nonempty keeps => exact .live nonempty (keeps.cycle coordinator)

/-- Cycling an allocator in the background leaves the ids. -/
theorem Holds.tick (h : site.Holds key ids) (coordinator : Coordinator) :
    (site.tick coordinator).Holds key ids := by
  cases h with
  | empty => exact .empty
  | live nonempty keeps => exact .live nonempty (keeps.tick coordinator)

/-- Another allocator with the same ids. -/
theorem Holds.swap {a b : Allocator} {live : Nat} (h : Holds key (some (a, live)) ids)
    (hsame : a.Keeps key ids → b.Keeps key ids) : Holds key (some (b, live)) ids := by
  cases h with
  | live nonempty keeps => exact .live nonempty (hsame keeps)

/-- Where the key gets no answer a cycle changes no site. -/
theorem Holds.cycle_eq_self (h : site.Holds key ids) {coordinator : Coordinator} {e : Failure}
    (hfail : coordinator key = .error e) : site.cycle coordinator = site := by
  cases h with
  | empty => rfl
  | @live a ids nonempty keeps =>
    obtain ⟨t, ht, -⟩ := keeps
    simp only [Site.cycle, Option.map_some, ht.cycle_eq_self hfail]

/-- A cycle at a site fails only because the key gets no answer. -/
theorem Holds.answer_of_cycle {a : Allocator} {live : Nat} (h : Holds key (some (a, live)) ids)
    {coordinator : Coordinator} {e : Failure} (hfail : (a.cycle coordinator).1 = .error e) :
    coordinator key = .error e := by
  cases h with
  | live nonempty keeps =>
    obtain ⟨t, ht, -⟩ := keeps
    exact ht.answer_of_cycle hfail

end Holds
end Site

/-! ### Ids in a registry -/

namespace Registry

/-- Each location's site holds the ids named for it. -/
def Occupied (key : String) (r : Registry) (ids : String → Finset String) : Prop :=
  ∀ location, (r.site location).Holds key (ids location)

section Occupied
variable {key : String} {r : Registry} {ids : String → Finset String}

theorem occupied_new (key : String) (factory : String → Except Failure Allocator) :
    (new factory).Occupied key fun _ => ∅ := fun location => by
  rw [site_new]
  exact .empty

/-- Cycles at distinct locations in turn cycle the site of each, also if one of them
fails. -/
theorem Occupied.site_cycleEach (h : r.Occupied key ids) (coordinator : Coordinator)
    (published : Nat) {locations : List String} (hnodup : locations.Nodup) (other : String) :
    (r.cycleEach coordinator published locations).2.site other =
      if other ∈ locations then (r.site other).cycle coordinator else r.site other := by
  induction locations generalizing r published with
  | nil => rfl
  | cons location rest ih =>
    obtain ⟨hnotin, hrest⟩ := List.nodup_cons.1 hnodup
    cases hs : r.slots[location]? with
    | none =>
      rw [cycleEach_of_none hs, ih h published hrest]
      by_cases ho : other = location
      · rw [ho, if_neg hnotin, if_pos (List.mem_cons_self ..), site_of_none hs]
        rfl
      · simp only [List.mem_cons, ho, false_or]
    | some slot =>
      rcases hx : slot.allocator.cycle coordinator with ⟨⟨e⟩ | ⟨generation⟩, a⟩
      · -- The cycle failed for want of an answer, so no other cycle would change anything.
        have hfail : coordinator key = .error e :=
          (site_of_some hs ▸ h location).answer_of_cycle (by rw [hx])
        have hsame := fun other => (h other).cycle_eq_self hfail
        rw [cycleEach_of_error hs hx, site_setSlot_cycle hs hx, hsame, hsame, ite_self]
        split
        · next ho => rw [ho]
        · rfl
      · have hnext : (r.setSlot location { slot with allocator := a }).Occupied key ids := by
          intro other
          rw [site_setSlot_cycle hs hx]
          split
          · next ho =>
            rw [ho]
            exact (h location).cycle coordinator
          · exact h other
        rw [cycleEach_of_ok hs hx, ih hnext _ hrest, site_setSlot_cycle hs hx]
        by_cases ho : other = location
        · rw [ho, if_neg hnotin, if_pos rfl, if_pos (List.mem_cons_self ..)]
        · simp only [List.mem_cons, ho, false_or, if_false]

/-- A round of cycles cycles every site, whatever the order and also if one of them fails. -/
theorem Occupied.site_cycleIn (h : r.Occupied key ids) (order : Order)
    (coordinator : Coordinator) (location : String) :
    (r.cycleIn order coordinator).2.site location = (r.site location).cycle coordinator := by
  unfold cycleIn
  rw [h.site_cycleEach coordinator 0 (r.nodup_arrange order)]
  split
  · rfl
  · next hnotin =>
    rw [mem_arrange_iff, Bool.not_eq_true, Option.isSome_eq_false_iff,
      Option.isNone_iff_eq_none] at hnotin
    rw [hnotin]
    rfl

end Occupied
end Registry
end EdgePlacement
