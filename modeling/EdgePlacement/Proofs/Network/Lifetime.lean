import EdgePlacement.Proofs.Network.Usage

/-!
How long a location lives.

Direct calls let an allocator track what its registry has never counted and lose what it has,
so the live count of a location need not be the number of its entries. It is told by history:
it is how many registrations more than removals have been accepted there since the location
came to be, it is never zero, and the removal that would make it zero ends the location
(`location_lives_by_count`). The allocator of a location that has ended can still be called,
and no slot notices, not even one that the location has been given again. -/
namespace EdgePlacement

namespace Registry

theorem handle?_eq_none_iff {r : Registry} {location : String} :
    r.handle? location = none ↔ r.slots[location]? = none := by
  unfold handle?
  rw [Option.map_eq_none_iff]

theorem handle?_eq_some_iff {r : Registry} {location : String} {handle : Handle} :
    r.handle? location = some handle ↔
      ∃ slot, r.slots[location]? = some slot ∧ ⟨location, slot.number⟩ = handle := by
  unfold handle?
  exact Option.map_eq_some_iff

theorem location_of_handle? {r : Registry} {location : String} {handle : Handle}
    (h : r.handle? location = some handle) : handle.location = location := by
  obtain ⟨slot, -, rfl⟩ := handle?_eq_some_iff.1 h
  rfl

theorem live_of_none {r : Registry} {location : String} (h : r.slots[location]? = none) :
    r.live location = 0 := by
  unfold live
  rw [h]
  rfl

theorem live_of_some {r : Registry} {location : String} {slot : Slot}
    (h : r.slots[location]? = some slot) : r.live location = slot.live := by
  unfold live
  rw [h]
  rfl

/-! ### One turn -/

section Turn
variable {P : Allocator.Call → Prop} {r r' : Registry} {location : String}
  {accepted removed : Bool}

/-- The live count goes up and down with what is accepted, without being cut off at zero. -/
theorem Turn.live (h : Turn P r r' location accepted removed) :
    r'.live location + removed.toNat = r.live location + accepted.toNat := by
  cases h with
  | absent before after => rw [live_of_none before, live_of_none after]
  | stays before after leads => rw [live_of_some before, live_of_some after]
  | makes before after counted makes leads =>
    rw [live_of_none before, live_of_some after]
    rfl
  | raises before after leads =>
    rw [live_of_some before, live_of_some after]
    rfl
  | lowers before more after leads =>
    rw [live_of_some before, live_of_some after]
    exact Nat.sub_add_cancel (Nat.le_of_lt more)
  | ends before last after retires =>
    rw [live_of_some before, live_of_none after, last]
    rfl

/-- A live location ends by the removal of the last that it counts, and by nothing else. -/
theorem Turn.ends_iff (h : Turn P r r' location accepted removed) (hlive : r.live location ≠ 0) :
    r'.handle? location = none ↔ removed = true ∧ r.live location = 1 := by
  rw [handle?_eq_none_iff]
  cases h with
  | absent before after => exact absurd (live_of_none before) hlive
  | stays before after leads => simp [after]
  | makes before after counted makes leads => exact absurd (live_of_none before) hlive
  | raises before after leads => simp [after]
  | lowers before more after leads =>
    rw [live_of_some before]
    simp [after, Nat.ne_of_gt more]
  | ends before last after retires =>
    rw [live_of_some before]
    simp [after, last]

/-- The allocator of a location is the one that was there or the next one made. -/
theorem Turn.handle_before (h : Turn P r r' location accepted removed) {handle : Handle}
    (hhandle : r'.handle? location = some handle) :
    r.handle? location = some handle ∨
      r.handle? location = none ∧ handle.number = r.made ∧ r.made < r'.made := by
  obtain ⟨slot, hslot, rfl⟩ := handle?_eq_some_iff.1 hhandle
  obtain ⟨old, hold, hsame, -⟩ | ⟨hnone, hnumber, hmade, -⟩ := h.came_from hslot
  · exact .inl (handle?_eq_some_iff.2 ⟨old, hold, by rw [hsame]⟩)
  · exact .inr ⟨handle?_eq_none_iff.2 hnone, hnumber, hmade⟩

/-- The allocator of a location stays there or is retired. -/
theorem Turn.handle_after (h : Turn P r r' location accepted removed) {handle : Handle}
    (hhandle : r.handle? location = some handle) :
    r'.handle? location = some handle ∨
      r'.handle? location = none ∧ handle.number ∈ r'.retired := by
  obtain ⟨slot, hslot, rfl⟩ := handle?_eq_some_iff.1 hhandle
  obtain ⟨later, hlater, hsame, -⟩ | ⟨hnone, hretired, -⟩ := h.goes_on hslot
  · exact .inl (handle?_eq_some_iff.2 ⟨later, hlater, by rw [hsame]⟩)
  · exact .inr ⟨handle?_eq_none_iff.2 hnone, hretired⟩

end Turn

/-! ### Ended locations -/

/-- The allocator of every slot has been made. -/
def Numbered (r : Registry) : Prop :=
  ∀ (location : String) (handle : Handle), r.handle? location = some handle → handle.number < r.made

/-- The location has ended for which the allocator of the handle was made. -/
structure Ended (r : Registry) (handle : Handle) : Prop where
  made : handle.number < r.made
  gone : r.handle? handle.location ≠ some handle
  retired : handle.number ∈ r.retired

/-- Whatever is done to the allocator of an ended location is done to it alone. -/
theorem Ended.act {r : Registry} {handle : Handle} (h : r.Ended handle) {α : Type}
    (f : Allocator → α × Allocator) :
    (r.act handle f).1.isSome = true ∧ (r.act handle f).2.slots = r.slots ∧
      (r.act handle f).2.factory = r.factory ∧ (r.act handle f).2.made = r.made := by
  obtain ⟨a, ha⟩ := Option.isSome_iff_exists.1 (Std.HashMap.isSome_getElem?_iff_mem.2 h.retired)
  have hgone : r.slots[handle.location]?.filter (·.number = handle.number) = none := by
    refine Option.filter_eq_none_iff.2 fun slot hslot hnumber => h.gone ?_
    exact handle?_eq_some_iff.2 ⟨slot, hslot, by rw [of_decide_eq_true hnumber]⟩
  unfold Registry.act
  rw [hgone, ha]
  exact ⟨rfl, rfl, rfl, rfl⟩

end Registry

namespace Service

/-! ### Runs of uses -/

/-- What has been accepted adds up to the live count. -/
theorem live_run {s : Service} (h : s.registry.Counts) (location : String) (uses : List Use) :
    (s.run uses).registry.live location + s.tally (removes location) uses =
      s.registry.live location + s.tally (registers location) uses := by
  induction uses generalizing s with
  | nil => rfl
  | cons u rest ih =>
    have hturn := (any_turn h u location).live
    have hrest := ih (counts_use h u)
    have hrun : s.run (u :: rest) = (s.use u).run rest := rfl
    simp only [tally, hrun]
    omega

theorem numbered_use {s : Service} (hcounts : s.registry.Counts) (h : s.registry.Numbered)
    (u : Use) : (s.use u).registry.Numbered := by
  intro location handle hhandle
  rcases (any_turn hcounts u location).handle_before hhandle
    with hbefore | ⟨-, hnumber, hmade⟩
  · exact Nat.lt_of_lt_of_le (h location handle hbefore) (s.continues_use u).made
  · exact hnumber ▸ hmade

theorem numbered_run {s : Service} (hcounts : s.registry.Counts) (h : s.registry.Numbered)
    (uses : List Use) : (s.run uses).registry.Numbered := by
  induction uses generalizing s with
  | nil => exact h
  | cons u rest ih => exact ih (counts_use hcounts u) (numbered_use hcounts h u)

/-- A location that has ended is not live again with the same allocator. -/
theorem ended_use {s : Service} (hcounts : s.registry.Counts) {handle : Handle}
    (h : s.registry.Ended handle) (u : Use) : (s.use u).registry.Ended handle where
  made := Nat.lt_of_lt_of_le h.made (s.continues_use u).made
  gone hhandle := by
    rcases (any_turn hcounts u _).handle_before hhandle with
      hbefore | ⟨-, hnumber, -⟩
    · exact h.gone hbefore
    · exact absurd hnumber (Nat.ne_of_lt h.made)
  retired := (s.continues_use u).retired _ h.retired

theorem ended_run {s : Service} (hcounts : s.registry.Counts) {handle : Handle}
    (h : s.registry.Ended handle) (uses : List Use) : (s.run uses).registry.Ended handle := by
  induction uses generalizing s with
  | nil => exact h
  | cons u rest ih => exact ih (counts_use hcounts u) (ended_use hcounts h u)

/-- A live allocator is still live after any uses, or its location has ended. -/
theorem live_or_ended {s : Service} (hcounts : s.registry.Counts) (hnumbered : s.registry.Numbered)
    {handle : Handle} (hlive : s.registry.handle? handle.location = some handle)
    (uses : List Use) :
    (s.run uses).registry.handle? handle.location = some handle ∨
      (s.run uses).registry.Ended handle := by
  induction uses generalizing s with
  | nil => exact .inl hlive
  | cons u rest ih =>
    have hcounts' := counts_use hcounts u
    rcases (any_turn hcounts u _).handle_after hlive
      with hkept | ⟨hgone, hretired⟩
    · exact ih hcounts' (numbered_use hcounts hnumbered u) hkept
    · have hmade := Nat.lt_of_lt_of_le (hnumbered _ _ hlive) (s.continues_use u).made
      have hended : (s.use u).registry.Ended handle :=
        ⟨hmade, ne_of_eq_of_ne hgone (Option.some_ne_none handle).symm, hretired⟩
      exact .inr (ended_run hcounts' hended rest)

/-! ### Lifetimes -/

/-- `since` is what has been done to a service since the allocator of the handle came to be:
before it the location had none, and after each use of it the location has had this one. -/
structure Lifetime (s : Service) (handle : Handle) (since : List Use) : Prop where
  absent : s.registry.handle? handle.location = none
  live : ∀ first, first ≠ [] → first <+: since →
    (s.run first).registry.handle? handle.location = some handle

/-- Every live allocator has a lifetime, which is the latest stretch of what has been done. -/
theorem exists_lifetime {s : Service} (hcounts : s.registry.Counts) {location : String}
    (habsent : s.registry.handle? location = none) (uses : List Use) {handle : Handle}
    (hlive : (s.run uses).registry.handle? location = some handle) :
    ∃ before since, uses = before ++ since ∧ (s.run before).Lifetime handle since := by
  induction uses using List.reverseRecOn generalizing handle with
  | nil => cases habsent.symm.trans hlive
  | append_singleton uses u ih =>
    obtain rfl := Registry.location_of_handle? hlive
    rw [run_append] at hlive
    rcases (any_turn (counts_run hcounts uses) u _).handle_before hlive with
      hbefore | ⟨hnone, -, -⟩
    · obtain ⟨before, since, rfl, hlifetime⟩ := ih hbefore
      refine ⟨before, since ++ [u], (List.append_assoc ..), hlifetime.absent, ?_⟩
      intro first hfirst hprefix
      rcases List.prefix_concat_iff.1 hprefix with rfl | hprefix
      · rwa [← run_append, ← List.append_assoc, run_append]
      · exact hlifetime.live first hfirst hprefix
    · refine ⟨uses, [u], rfl, hnone, fun first hfirst hprefix => ?_⟩
      rcases List.prefix_cons_iff.1 hprefix with rfl | ⟨rest, rfl, hrest⟩
      · exact absurd rfl hfirst
      · rw [List.prefix_nil.1 hrest]
        exact hlive

/-- **A location lives by its count.** Let registry calls, cycles in the background and direct
calls on any allocators have led from an empty registry to `now`. A slot counts at least one
entry; it counts how many registrations more than removals have been accepted at its location
since its allocator came to be, and so does the live count of a location since any time at
which it had no allocator. A live location ends with a use if and only if that is an accepted
removal and the count is one. An allocator whose location has ended is never live again, and
what is done to it leaves all slots as they are. -/
theorem location_lives_by_count (factory : String → Except Failure Allocator)
    (coordinator : Coordinator) (uses : List Use) (location : String) :
    let start : Service := ⟨.new factory, coordinator⟩
    let now := start.run uses
    (∀ slot, now.registry.slots[location]? = some slot → 1 ≤ slot.live ∧
      ∃ before since, uses = before ++ since ∧
        (start.run before).Lifetime ⟨location, slot.number⟩ since ∧
        (start.run before).tally (registers location) since =
          (start.run before).tally (removes location) since + slot.live) ∧
    (∀ before since, uses = before ++ since →
      (start.run before).registry.handle? location = none →
      (start.run before).tally (registers location) since =
        (start.run before).tally (removes location) since + now.registry.live location) ∧
    (∀ u, now.registry.live location ≠ 0 →
      ((now.use u).registry.handle? location = none ↔
        now.removes location u = true ∧ now.registry.live location = 1)) ∧
    ∀ before between since handle, uses = before ++ between ++ since →
      (start.run before).registry.handle? location = some handle →
      (start.run (before ++ between)).registry.handle? location ≠ some handle →
      now.registry.handle? location ≠ some handle ∧
        ∀ (α : Type) (f : Allocator → α × Allocator),
          (now.registry.act handle f).1.isSome = true ∧
          (now.registry.act handle f).2.slots = now.registry.slots ∧
          (now.registry.act handle f).2.factory = now.registry.factory ∧
          (now.registry.act handle f).2.made = now.registry.made := by
  intro start now
  have hcounts : start.registry.Counts := Registry.counts_new factory
  have hempty : ∀ location : String, start.registry.handle? location = none := fun location =>
    Registry.handle?_eq_none_iff.2 (Registry.slots_new factory location)
  have hnumbered : start.registry.Numbered := fun location handle hhandle => by
    cases (hempty location).symm.trans hhandle
  have hsince : ∀ before since, uses = before ++ since →
      (start.run before).registry.handle? location = none →
      (start.run before).tally (registers location) since =
        (start.run before).tally (removes location) since + now.registry.live location := by
    rintro before since rfl habsent
    have hlive := live_run (counts_run hcounts before) location since
    rw [Registry.live_of_none (Registry.handle?_eq_none_iff.1 habsent), Nat.zero_add,
      ← run_append] at hlive
    rw [← hlive, Nat.add_comm]
  refine ⟨fun slot hslot => ⟨counts_run hcounts uses location slot hslot, ?_⟩, hsince,
    fun u hlive => ?_, ?_⟩
  · obtain ⟨before, since, hsplit, hlifetime⟩ := exists_lifetime hcounts (hempty location) uses
      (Registry.handle?_eq_some_iff.2 ⟨slot, hslot, rfl⟩)
    refine ⟨before, since, hsplit, hlifetime, ?_⟩
    rw [hsince before since hsplit hlifetime.absent, Registry.live_of_some hslot]
  · exact (any_turn (counts_run hcounts uses) u location).ends_iff hlive
  · rintro before between since handle rfl hlive hgone
    obtain rfl := Registry.location_of_handle? hlive
    have hbefore := counts_run hcounts before
    rw [run_append] at hgone
    -- Once the location has ended it stays so, whatever is done to it or made of it after.
    have hended := (live_or_ended hbefore (numbered_run hcounts hnumbered before) hlive
      between).resolve_left hgone
    have hnow : now.registry.Ended handle := by
      show (start.run (before ++ between ++ since)).registry.Ended handle
      rw [run_append, run_append]
      exact ended_run (counts_run hbefore between) hended since
    exact ⟨hnow.gone, fun α f => hnow.act f⟩

end Service
end EdgePlacement
