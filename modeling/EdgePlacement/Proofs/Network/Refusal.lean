import EdgePlacement.Proofs.Network.Reach

/-!
Calls that fail.

A registration touches the registry before it knows whether it will be accepted, and takes
back what it has done when it is not. That leaves no trace (`refused_unchanged`): taking back
ends a location only if its allocator was made for this very registration, since a location
that was there before counts something else. This holds of the count alone, whatever direct
calls have made of the entries. -/
namespace EdgePlacement.Registry
open Allocator

/-! ### The same registry -/

/-- Nobody can tell the registries apart: the same allocators with the same counts are in the
same states at the same locations, and so are those of ended locations. -/
structure Unchanged (r r' : Registry) : Prop where
  factory : r'.factory = r.factory
  locations : r'.locations = r.locations
  slots : ∀ location : String, r'.slots[location]? = r.slots[location]?
  retired : ∀ number < r.made, r'.retired[number]? = r.retired[number]?

section Unchanged
variable {r r' : Registry}

theorem Unchanged.refl (r : Registry) : r.Unchanged r := ⟨rfl, rfl, fun _ => rfl, fun _ _ => rfl⟩

theorem locations_congr
    (h : ∀ location : String, r'.slots[location]?.isSome = r.slots[location]?.isSome) :
    r'.locations = r.locations := by
  have hmem : ∀ location, location ∈ r'.locations ↔ location ∈ r.locations := fun location => by
    rw [mem_locations_iff, mem_locations_iff, site, site, Option.isSome_map, Option.isSome_map, h]
  refine List.Perm.eq_of_pairwise (fun a b _ _ hab hba => ?_)
    r'.pairwise_locations r.pairwise_locations
    ((List.perm_ext_iff_of_nodup r'.nodup_locations r.nodup_locations).2 hmem)
  exact (String.lt_asymm hab hba).elim

/-- A refused registration is taken back. -/
theorem unchanged_refused (hcounts : r.Counts) {location : String} {slot : Slot} {made : Nat}
    (opens : r.Opens location slot made) :
    r.Unchanged ({ r with made }.release location { slot with live := slot.live + 1 }) where
  factory := factory_release ..
  locations := locations_congr fun other => by rw [slots_refused hcounts opens]
  slots := slots_refused hcounts opens
  retired number hnumber := by
    unfold release
    cases opens with
    | live there =>
      have hlive := hcounts location slot there
      rw [Nat.add_sub_cancel, if_neg (Nat.ne_of_gt hlive)]
      rfl
    | made absent makes =>
      exact (Std.HashMap.getElem?_insert ..).trans (if_neg (by simpa using Nat.ne_of_gt hnumber))

/-- Putting a slot back as it was changes nothing. -/
theorem unchanged_setSlot {location : String} {slot : Slot}
    (there : r.slots[location]? = some slot) : r.Unchanged (r.setSlot location slot) := by
  have hslots : ∀ other : String, (r.setSlot location slot).slots[other]? = r.slots[other]? := by
    intro other
    rw [slots_setSlot]
    split
    · next ho => rw [ho, there]
    · rfl
  exact ⟨rfl, locations_congr fun other => by rw [hslots], hslots, fun _ _ => rfl⟩

end Unchanged

/-! ### Failures -/

theorem Counts.register_of_error {r : Registry} (h : r.Counts) {location id : String}
    {size : UInt64} {e : Failure} (he : (r.register location id size).1 = .error e) :
    r.Unchanged (r.register location id size).2 ∧
      (r.slots[location]? = none ∧ r.factory location = .error e ∨ e = .duplicateEntry id) := by
  have hout := r.registering location id size
  generalize r.register location id size = out at hout he ⊢
  cases hout with
  | unmade absent fails =>
    cases he
    exact ⟨.refl r, .inl ⟨absent, fails⟩⟩
  | accepted opens accepts => cases he
  | refused opens refuses =>
    cases he
    exact ⟨unchanged_refused h opens, .inr rfl⟩

theorem Uniform.unregister_of_error {r : Registry} (h : r.Uniform Served) {location id : String}
    {e : Failure} (he : (r.unregister location id).1 = .error e) :
    r.Unchanged (r.unregister location id).2 ∧
      (r.slots[location]? = none ∧ e = .unknownLocation location ∨
        r.slots[location]?.isSome = true ∧ e = .notFound id) := by
  have hout := r.unregistering location id
  generalize r.unregister location id = out at hout he ⊢
  cases hout with
  | absent absent =>
    cases he
    exact ⟨.refl r, .inl ⟨absent, rfl⟩⟩
  | accepted there accepts => cases he
  | @refused slot e there refuses =>
    cases he
    obtain ⟨rfl, hsame⟩ := (h.slots location slot there).unregister_of_error refuses
    rw [hsame]
    exact ⟨unchanged_setSlot there, .inr ⟨by rw [there]; rfl, rfl⟩⟩

/-- What a registry makes of allocators in order stays in order. -/
theorem Reaches.served {factory : String → Except Failure Allocator}
    (makes : ∀ location a, factory location = .ok a → a.Served) {allowed : Use → Prop}
    {r : Registry} (hr : (new factory).Reaches allowed r) : r.Uniform Served :=
  hr.uniform Served.next (uniform_new makes)

/-- **A call that fails changes nothing.** Let registry calls, replays and direct calls on any
allocators have led to the registry, from an empty one whose factory makes allocators in order. A
registration fails because the allocator that it needs cannot be made or because the allocator has
the id already, and a removal because there is no allocator or because it has no such id. Either
way the registry is as before. -/
theorem refused_unchanged {factory : String → Except Failure Allocator}
    (makes : ∀ location a, factory location = .ok a → a.Served) {r : Registry}
    (hr : (new factory).Reaches (fun _ => True) r) (location id : String) (size : UInt64) :
    (∀ e, (r.register location id size).1 = .error e →
      r.Unchanged (r.register location id size).2 ∧
        (r.slots[location]? = none ∧ r.factory location = .error e ∨ e = .duplicateEntry id)) ∧
    ∀ e, (r.unregister location id).1 = .error e →
      r.Unchanged (r.unregister location id).2 ∧
        (r.slots[location]? = none ∧ e = .unknownLocation location ∨
          r.slots[location]?.isSome = true ∧ e = .notFound id) :=
  ⟨fun _ he => (hr.served makes).counts.register_of_error he,
    fun _ he => (hr.served makes).unregister_of_error he⟩

/-- An allocator that has lost the one entry counted and has another that is not: neither can
the one be removed nor the other registered, and the count stays. -/
theorem refused_unchanged_miscounted :
    let still : Coordinator := fun _ => .ok ∅
    let start : Service := ⟨.refusing (.ofList [1024]) [], still⟩
    let r := (start.run [.event (.register "eu" "film" 5),
      .direct ⟨"eu", 0⟩ (.request (.unregister "film")),
      .direct ⟨"eu", 0⟩ (.request (.register "trailer" 7))]).registry
    (∀ location a, start.registry.factory location = .ok a → a.Served) ∧
      start.registry.Reaches (fun _ => True) r ∧ r.live "eu" = 1 ∧
      (r.register "eu" "trailer" 9).1 = .error (.duplicateEntry "trailer") ∧
      r.Unchanged (r.register "eu" "trailer" 9).2 ∧
      (r.unregister "eu" "film").1 = .error (.notFound "film") ∧
      r.Unchanged (r.unregister "eu" "film").2 := by
  intro still start r
  let a₁ : Allocator := ((Allocator.greedy (.new (.ofList [1024]))).register "film" 5).2
  let a₃ : Allocator := ((a₁.unregister "film").2.register "trailer" 7).2
  have hmakes : ∀ location a, start.registry.factory location = .ok a → a.Served :=
    fun location a ha => .fresh (fresh_of_refusing ha)
  have hr : start.registry.Reaches (fun _ => True) r :=
    Reaches.run (s := start) .start fun _ _ => trivial
  have hkeeps : a₃.Keeps _ (insert "trailer" (Finset.erase (insert "film" ∅) "film")) :=
    ((((Fresh.greedy _).keeps.register "film" 5).2.unregister "film").2.register "trailer" 7).2
  have hfirst : start.registry.register "eu" "film" 5 =
      (.ok (), ({ start.registry with made := 1 } : Registry).setSlot "eu" ⟨0, a₁, 1⟩) := by
    simp [start, a₁, Registry.register, slotFor, refusing, Registry.new, Allocator.register,
      Greedy.register, Greedy.new]
  have hslot₁ : (start.use (.event (.register "eu" "film" 5))).registry.slots["eu"]? =
      some ⟨0, a₁, 1⟩ := by
    show (start.registry.register "eu" "film" 5).2.slots["eu"]? = _
    rw [hfirst, slots_setSlot, if_pos rfl]
  have hslot : r.slots["eu"]? = some ⟨0, a₃, 1⟩ :=
    Service.slots_direct ⟨"eu", 0⟩ (Service.slots_direct ⟨"eu", 0⟩ hslot₁ rfl _) rfl _
  have hregister : (r.register "eu" "trailer" 9).1 = .error (.duplicateEntry "trailer") :=
    (register_answer hslot ..).trans ((hkeeps.register "trailer" 9).1.trans (if_pos (by decide)))
  have hunregister : (r.unregister "eu" "film").1 = .error (.notFound "film") :=
    (unregister_answer hslot ..).trans ((hkeeps.unregister "film").1.trans (if_neg (by decide)))
  obtain ⟨hregistered, -⟩ := refused_unchanged hmakes hr "eu" "trailer" 9
  obtain ⟨-, hremoved⟩ := refused_unchanged hmakes hr "eu" "film" 0
  refine ⟨hmakes, hr, ?_, hregister, (hregistered _ hregister).1, hunregister, (hremoved _ hunregister).1⟩
  unfold Registry.live
  rw [hslot]
  rfl

end EdgePlacement.Registry
