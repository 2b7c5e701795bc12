import EdgePlacement.Proofs.Network.Rounds
import EdgePlacement.Proofs.Placement.Fronts
import EdgePlacement.Proofs.Placement.Ready

/-!
A single entry and all the space there is.

Settings are looked at only for lists that are empty, but a list of size classes may also have
nothing in it but zeros, and then the table has class 0 alone, which is never visited. With
these settings the greedy strategy never serves anything (`zero_classes_serve_nothing`). With
all others that are accepted, an entry that is not empty is served as soon as it has been
registered and a round of cycles has been run (`single_entry_served`). -/
namespace EdgePlacement

/-! ### Answers to a request for everything -/

namespace Greedy

/-- Where there is a class to visit, something is found that fits. -/
theorem Consistent.allocate_max_ne_nil {g : Greedy} {t : Tracked} (h : g.Consistent t)
    (hmore : 1 < g.table.size) {id : String} {size : UInt64} (ht : t id = some size)
    (hsize : 1 ≤ size) : (g.allocate 18446744073709551615).1 ≠ [] := by
  refine h.allocate_ne_nil (fun _ size _ => SizeTable.le_max size) ht
    (SizeTable.one_le_classFor hmore hsize) ?_
  have := g.table.classFor_lt size
  rw [g.table.reach_max]
  omega

/-- Where there is none, nothing is. -/
theorem Consistent.allocate_of_size_eq_one {g : Greedy} {t : Tracked} (h : g.Consistent t)
    (hone : g.table.size = 1) (available : UInt64) : (g.allocate available).1 = [] := by
  refine (h.allocate_eq_nil_iff available).2 fun c hpos hle => ?_
  have := g.table.reach_lt available
  omega

end Greedy

/-- A snapshot of an entry finds at least that it fits. -/
theorem Prepared.Lists.allocate_max_ne_nil {items : List Item} {t : Tracked}
    (h : Lists items t) (generation : UInt64) (menu : SizeTable) (ranking : Ranking)
    {id : String} {size : UInt64} (ht : t id = some size) :
    (Snapshot.build generation menu items ranking).allocate menu 18446744073709551615 ≠ [] := by
  rw [Snapshot.allocate_build, ne_eq, List.map_eq_nil_iff,
    Snapshot.answer_eq_nil_iff _ _ _ _ (by decide)]
  intro hlarge
  exact UInt64.not_lt.2 (SizeTable.le_max size) (hlarge ⟨id, size⟩ ((h.mem_iff _).2 ht))

namespace Allocator
variable {id : String} {size : UInt64}

/-- Where one id is tracked alone, an answer is this id or nothing. -/
theorem Ready.allocate_alone {a : Allocator} (h : a.Ready (Tracked.none.set id (some size)))
    (available : UInt64) :
    (a.allocate available).1 = [] ∨ (a.allocate available).1 = [id] := by
  obtain ⟨⟨hnodup, htracked, -⟩, -⟩ := h.allocate available
  have hsub : (a.allocate available).1 ⊆ [id] := fun other hother => by
    by_contra hne
    have hnone := htracked other hother
    rw [Tracked.set_of_ne _ _ fun heq => hne (List.mem_singleton.2 heq)] at hnone
    cases hnone
  have hlength := hnodup.length_le_of_subset hsub
  generalize (a.allocate available).1 = ids at hsub hlength ⊢
  match ids with
  | [] => exact .inl rfl
  | [other] => exact .inr (congrArg (List.cons · []) (List.mem_singleton.1 (hsub (.head _))))
  | _ :: _ :: _ => simp at hlength

/-- Where its class is visited and there is space for it, the answer is this id every time. -/
theorem answers_alone {g : Greedy} (h : g.Consistent (Tracked.none.set id (some size)))
    {available : UInt64} (hpos : 1 ≤ g.table.classFor size)
    (hreach : g.table.classFor size ≤ g.table.reach available) (hfits : size ≤ available)
    (n : Nat) : (Allocator.greedy g).answers available n = List.replicate n [id] := by
  induction n generalizing g with
  | zero => rfl
  | succ n ih =>
    have hself : (Tracked.none.set id (some size)) id = some size := by simp
    have hall : ∀ other bytes, (Tracked.none.set id (some size)) other = some bytes →
        bytes ≤ available := by
      intro other bytes hother
      by_cases heq : other = id
      · rw [heq, hself] at hother
        exact Option.some.inj hother ▸ hfits
      · rw [Tracked.set_of_ne _ _ heq] at hother
        cases hother
    have hfirst : (g.allocate available).1 = [id] :=
      ((Ready.greedy h).allocate_alone available).resolve_left
        (h.allocate_ne_nil hall hself hpos hreach)
    have htable := g.table_serve (.allocate available)
    have hrest := ih (Greedy.consistent_allocate h available) (htable.symm ▸ hpos)
      (htable.symm ▸ hreach)
    rw [List.replicate_succ, ← hrest, ← hfirst]
    rfl

/-- What an allocator over settings answers when an entry has been registered and a cycle has
succeeded. -/
theorem allocate_single {settings : Settings} {coordinator : Coordinator}
    {generation : Option UInt64} (hsize : 1 ≤ size)
    (hok : (((settings.allocator false).register id size).2.cycle coordinator).1 = .ok generation) :
    ((((settings.allocator false).register id size).2.cycle coordinator).2.allocate
        18446744073709551615).1 =
      if settings.strategy = .greedy ∧ settings.sizeClasses.all (· == 0) then [] else [id] := by
  have hregistered := ((tracks_new (Registry.new_allocator settings)).register id size).2
  have htracked : (Tracked.none.next (.register id size)) id = some size := by
    simp [Tracked.next, Tracked.none]
  have hready := hregistered.ready hok
  have halone := hready.allocate_alone 18446744073709551615
  cases hstrategy : settings.strategy with
  | greedy =>
    have hnew : settings.allocator false = .greedy (.new settings.classes) := by
      unfold Settings.allocator
      rw [hstrategy]
    rw [hnew] at halone ⊢
    have hconsistent := Greedy.consistent_register (Greedy.consistent_new settings.classes) id size
    have htable : ((Greedy.new settings.classes).register id size).2.table = settings.classes :=
      (Greedy.new settings.classes).table_serve (.register id size)
    have hzeros : settings.classes.size = 1 ↔ settings.sizeClasses.all (· == 0) := by
      simp only [List.all_eq_true, beq_iff_eq]
      exact SizeTable.size_ofList_eq_one_iff _
    by_cases hone : settings.classes.size = 1
    · rw [if_pos ⟨rfl, hzeros.1 hone⟩]
      exact hconsistent.allocate_of_size_eq_one (htable.symm ▸ hone) _
    · rw [if_neg fun hand => hone (hzeros.2 hand.2)]
      refine halone.resolve_left (hconsistent.allocate_max_ne_nil ?_ htracked hsize)
      have := settings.classes.size_pos
      rw [htable]
      omega
  | precomputed =>
    have hof := ((of_allocator settings false).next (.request (.register id size))).next
      (.cycle coordinator)
    rw [if_neg fun hand => by cases hand.1]
    refine halone.resolve_left ?_
    change Of settings (((settings.allocator false).register id size).2.cycle coordinator).2 at hof
    generalize (((settings.allocator false).register id size).2.cycle coordinator).2 = a at hof hready
    cases hof with
    | greedy other _ => cases hstrategy.symm.trans other
    | @prepared _ p menu key =>
      cases hready with
      | prepared lists snapshot =>
        show p.snapshot.allocate p.menu _ ≠ []
        rw [snapshot]
        exact lists.allocate_max_ne_nil _ _ _ htracked

end Allocator

namespace Registry
open Allocator

/-! ### The first entry -/

/-- A registration with a registry that has just been made. -/
theorem register_new (factory : String → Except Failure Allocator) (location : String)
    {a : Allocator} (makes : factory location = .ok a) {id : String} {size : UInt64}
    (accepts : (a.register id size).1 = .ok ()) :
    (new factory).register location id size =
      (.ok (), ({ new factory with made := 1 } : Registry).setSlot location
        ⟨0, (a.register id size).2, 1⟩) := by
  have hslot : (new factory).slotFor location =
      .ok (⟨0, a, 0⟩, { new factory with made := 1 }) := by
    unfold slotFor
    rw [slots_new]
    simp only
    rw [show (new factory).factory location = .ok a from makes]
    rfl
  unfold register
  rw [hslot]
  simp only
  rcases hx : a.register id size with ⟨e | _, b⟩
  · rw [hx] at accepts
    cases accepts
  · rfl

theorem size_setSlot_new (factory : String → Except Failure Allocator) (made : Nat)
    (location : String) (slot : Slot) :
    (({ new factory with made } : Registry).setSlot location slot).size = 1 := by
  simp [setSlot, new, Registry.size, Std.TreeMap.size_insert]

/-- Registering a single entry and running a round of cycles succeed, and from then on the
location answers as one allocator by itself. -/
theorem answer_of_single {settings : Settings} {hasCoordinator : Bool} {coordinator : Coordinator}
    (checked : settings.check = .ok ())
    (ranked : settings.strategy = .precomputed → hasCoordinator = true ∧
      ∃ ranking, coordinator settings.cycle.rankingKey = .ok ranking)
    (location id : String) (size : UInt64) (order : Order) :
    let allocator := ((settings.allocator false).register id size).2.cycle coordinator
    ∃ start, settings.registry hasCoordinator false = .ok start ∧
      let registered := start.register location id size
      let cycled := registered.2.cycleIn order coordinator
      registered.1 = .ok () ∧
      cycled.1 = .ok (if settings.strategy = .precomputed then 1 else 0) ∧
      (∃ generation, allocator.1 = .ok generation) ∧
      ∀ available, (cycled.2.allocate location available).1 =
        .ok (allocator.2.allocate available).1 := by
  have accepted : settings.registry hasCoordinator false =
      .ok (.new fun _ => .ok (settings.allocator false)) :=
    registry_eq_ok_iff.2 ⟨checked, fun hstrategy => (ranked hstrategy).1, rfl⟩
  have haccepts : ((settings.allocator false).register id size).1 = .ok () :=
    ((tracks_new (new_allocator settings)).register id size).1
  have hregister := register_new (fun _ => .ok (settings.allocator false)) location rfl haccepts
  have huniform := (uniform_of_settings accepted).register Of.next location id size
  rw [hregister] at huniform
  refine ⟨_, accepted, ?_⟩
  rw [hregister]
  simp only
  generalize hr : Registry.setSlot _ location _ = r at huniform ⊢
  have hslot : r.slots[location]? = some ⟨0, ((settings.allocator false).register id size).2, 1⟩ :=
    hr ▸ (slots_setSlot ..).trans (if_pos rfl)
  have hsingle : r.size = 1 := hr ▸ size_setSlot_new ..
  obtain ⟨hanswer, hcycled⟩ := huniform.round coordinator order
  have hround : (r.cycleIn order coordinator).1 =
      .ok (if settings.strategy = .precomputed then 1 else 0) := by
    rw [hanswer, answerOfRound]
    cases hstrategy : settings.strategy with
    | greedy => rfl
    | precomputed =>
      obtain ⟨-, ranking, hfetch⟩ := ranked hstrategy
      rw [hfetch, if_pos rfl, hsingle]
  refine ⟨trivial, hround, huniform.cycle_ok_of_round hround hslot, fun available => ?_⟩
  unfold Registry.allocate
  rw [hcycled.slots_of_some hslot]
  rfl

/-- **A single entry is served, unless all size classes are zero.** Let settings be accepted
and, for the precomputed strategy, let their key be answered. Then a registry can be made for
them, an entry of any location, id and size above 0 can be registered with it, a round of cycles
in any order succeeds, and a request for all the space there is gets this entry and nothing else.
The exception are settings of the greedy strategy whose size classes are all zero: the request
succeeds there too, but gets nothing. -/
theorem single_entry_served {settings : Settings} {hasCoordinator : Bool}
    {coordinator : Coordinator} (checked : settings.check = .ok ())
    (ranked : settings.strategy = .precomputed → hasCoordinator = true ∧
      ∃ ranking, coordinator settings.cycle.rankingKey = .ok ranking)
    (location id : String) {size : UInt64} (hsize : 1 ≤ size) (order : Order) :
    ∃ start, settings.registry hasCoordinator false = .ok start ∧
      let registered := start.register location id size
      let cycled := registered.2.cycleIn order coordinator
      registered.1 = .ok () ∧
      cycled.1 = .ok (if settings.strategy = .precomputed then 1 else 0) ∧
      (cycled.2.allocate location 18446744073709551615).1 = .ok
        (if settings.strategy = .greedy ∧ settings.sizeClasses.all (· == 0) then [] else [id]) := by
  obtain ⟨start, haccepted, hregistered, hcycled, ⟨generation, hok⟩, hanswer⟩ :=
    answer_of_single checked ranked location id size order
  refine ⟨start, haccepted, hregistered, hcycled, (hanswer _).trans ?_⟩
  rw [allocate_single hsize hok]

/-- No budget of the menu above 0, and the entry is served all the same. -/
theorem single_entry_served_without_budgets :
    let settings : Settings := { Settings.default with
      strategy := .precomputed, sizeClasses := [0], cycle.budgets := [0] }
    ∃ start, settings.registry true false = .ok start ∧
      let registered := start.register "eu" "a" 1
      let cycled := registered.2.cycleIn .listed (.ofRankings ∅)
      registered.1 = .ok () ∧ cycled.1 = .ok 1 ∧
      (cycled.2.allocate "eu" 18446744073709551615).1 = .ok ["a"] :=
  single_entry_served rfl (fun _ => ⟨rfl, _, rfl⟩) "eu" "a" (by decide) .listed

/-- With the greedy strategy and no size class above 0, an entry is registered and never served. -/
theorem zero_classes_serve_nothing :
    let settings : Settings := { Settings.default with sizeClasses := [0] }
    settings.check = .ok () ∧ ∃ start, settings.registry false false = .ok start ∧
      let registered := start.register "eu" "a" 1
      let cycled := registered.2.cycleIn .listed (.ofRankings ∅)
      registered.1 = .ok () ∧ cycled.1 = .ok 0 ∧
      (cycled.2.allocate "eu" 18446744073709551615).1 = .ok [] := by
  intro settings
  have hchecked : settings.check = .ok () := rfl
  have hranked : settings.strategy = .precomputed → false = true ∧
      ∃ ranking, Coordinator.ofRankings ∅ settings.cycle.rankingKey = .ok ranking :=
    fun hstrategy => by cases hstrategy
  obtain ⟨start, haccepted, hregistered, hcycled, ⟨generation, hok⟩, hanswer⟩ :=
    answer_of_single hchecked hranked "eu" "a" 1 .listed
  refine ⟨hchecked, start, haccepted, hregistered, hcycled, (hanswer _).trans ?_⟩
  rw [allocate_single (by decide) hok, if_pos ⟨rfl, rfl⟩]

end Registry
end EdgePlacement
