import EdgePlacement.Proofs.Placement.Prepared

/-!
How old an answer is.

A cycle that succeeds copies the live entries and fetches a ranking, and nothing but these
two enters its snapshot. Not even the order of the copy does: ids are distinct, so either
order a snapshot keeps has room for one arrangement only (`build_perm`). Hence the snapshot
of an allocator, whatever has happened to it, is the one that a new allocator gets if it is
told the entries its last successful cycle met and runs one cycle with the ranking fetched
then (`as_of_last_cycle`). -/
namespace EdgePlacement

namespace Snapshot

/-- A snapshot does not depend on how its items were listed. -/
theorem build_perm (generation : UInt64) (menu : SizeTable) (ranking : Ranking)
    {items others : List Item} (hids : (items.map (·.id)).Nodup) (hperm : items.Perm others) :
    build generation menu items ranking = build generation menu others ranking := by
  have htried : Solution.inOrder ranking items = Solution.inOrder ranking others :=
    Item.mergeSort_eq_of_perm (Solution.tried_iff ranking) hids hperm
  have hsize : items.mergeSort smaller = others.mergeSort smaller :=
    Item.mergeSort_eq_of_perm smaller_iff hids hperm
  unfold build
  rw [htried, hsize]

/-- Its answers do not depend on its generation. -/
theorem allocate_generation (s : Snapshot) (generation : UInt64) (menu : SizeTable)
    (available : UInt64) : { s with generation }.allocate menu available =
      s.allocate menu available := by
  have htopOff : ∀ taken count space, { s with generation }.topOff taken count space =
      s.topOff taken count space := by
    intro taken count space
    induction count generalizing space with
    | zero => rfl
    | succ count ih => simp only [topOff, ih]
  unfold allocate
  simp only [htopOff]
  rfl

end Snapshot

namespace Prepared

/-- A request changes nothing but the live entries. -/
theorem serve_eq (p : Prepared) (r : Request) :
    p.serve r = { p with live := (p.serve r).live } := by
  cases r with
  | register id size =>
    simp only [serve, register]
    split <;> rfl
  | unregister id =>
    simp only [serve, unregister]
    split <;> rfl
  | allocate available => rfl

/-- A cycle changes nothing but the snapshot, and that if it gets a ranking. -/
theorem cycle_eq (p : Prepared) (coordinator : Coordinator) :
    (p.cycle coordinator).2 = { p with
      snapshot := (coordinator p.key).toOption.elim p.snapshot
        (.build (p.snapshot.generation + 1) p.menu p.items) } := by
  unfold cycle
  cases coordinator p.key <;> rfl

/-- A cycle fails only for the error of its fetch. -/
theorem cycle_error_iff {p : Prepared} {coordinator : Coordinator} {e : Failure} :
    (p.cycle coordinator).1 = .error e ↔ coordinator p.key = .error e := by
  unfold cycle
  cases coordinator p.key <;> simp

/-! ### A new allocator -/

theorem register_of_notMem {p : Prepared} {id : String} (size : UInt64)
    (h : ∀ item ∈ p.items, item.id ≠ id) :
    p.register id size = (.ok (), { p with live := p.live.insert id size }) := by
  unfold register
  rw [if_neg]
  rw [Std.HashMap.contains_eq_isSome_getElem?]
  intro hsome
  obtain ⟨old, hold⟩ := Option.isSome_iff_exists.1 hsome
  exact h ⟨id, old⟩ (mem_items_iff.2 hold) rfl

/-- A new allocator that is told items. -/
def told (menu : SizeTable) (key : String) (items : List Item) : Prepared :=
  items.foldl (fun p item => p.serve (.register item.id item.size)) (new menu key)

section Told
variable (menu : SizeTable) (key : String)

theorem told_concat (items : List Item) (item : Item) :
    told menu key (items ++ [item]) =
      (told menu key items).serve (.register item.id item.size) := by
  simp [told]

/-- Nothing but the live entries comes of what it is told. -/
theorem told_eq (items : List Item) :
    told menu key items = { new menu key with live := (told menu key items).live } := by
  induction items using List.reverseRecOn with
  | nil => rfl
  | append_singleton items item ih =>
    rw [told_concat, serve_eq, ih]

/-- Its first cycle publishes what it was told. -/
theorem cycle_told (items : List Item) {coordinator : Coordinator} {ranking : Ranking}
    (hfetch : coordinator key = .ok ranking) :
    (told menu key items).cycle coordinator = (.ok 1, ⟨menu, key, (told menu key items).live,
      .build 1 menu (told menu key items).items ranking, false⟩) := by
  have hmenu : (told menu key items).menu = menu := congrArg Prepared.menu (told_eq ..)
  have hkey : (told menu key items).key = key := congrArg Prepared.key (told_eq ..)
  have hsnapshot : (told menu key items).snapshot = .empty menu :=
    congrArg Prepared.snapshot (told_eq ..)
  have hrunning : (told menu key items).running = false := congrArg Prepared.running (told_eq ..)
  unfold cycle
  rw [hkey, hfetch, hsnapshot, hmenu, hrunning]
  rfl

theorem mem_items_told {items : List Item} (hids : (items.map (·.id)).Nodup) {item : Item} :
    item ∈ (told menu key items).items ↔ item ∈ items := by
  induction items using List.reverseRecOn generalizing item with
  | nil => simp [told, Prepared.items, new]
  | append_singleton items last ih =>
    rw [List.map_append, List.nodup_append] at hids
    obtain ⟨hids, -, hother⟩ := hids
    have hold : ∀ old ∈ (told menu key items).items, old.id ≠ last.id := fun old hmem =>
      hother _ (List.mem_map_of_mem ((ih hids).1 hmem)) _ (List.mem_singleton_self _)
    rw [told_concat, serve, register_of_notMem last.size hold, mem_items_iff]
    show ((told menu key items).live.insert last.id last.size)[item.id]? = _ ↔ _
    rw [getElem?_insert_id, List.mem_append, List.mem_singleton]
    by_cases hid : item.id = last.id
    · rw [if_pos hid, or_iff_right (fun hmem => hold item ((ih hids).2 hmem) hid)]
      constructor
      · intro hsize
        obtain ⟨id, size⟩ := item
        cases hid
        cases hsize
        rfl
      · rintro rfl
        rfl
    · rw [if_neg hid, ← mem_items_iff, ih hids, or_iff_left (fun heq => hid (congrArg _ heq))]

/-- A new allocator accepts items with distinct ids, each in its turn, and has them for its
live entries. -/
theorem told_accepts {earlier later : List Item} {item : Item}
    (hids : ((earlier ++ item :: later).map (·.id)).Nodup) :
    ((told menu key earlier).register item.id item.size).1 = .ok () := by
  rw [List.map_append, List.nodup_append] at hids
  obtain ⟨hids, -, hother⟩ := hids
  rw [register_of_notMem item.size fun old hmem => ?_]
  exact hother _ (List.mem_map_of_mem ((mem_items_told menu key hids).1 hmem)) _
    (List.mem_cons_self ..)

theorem items_told_perm {items : List Item} (hids : (items.map (·.id)).Nodup) :
    (told menu key items).items.Perm items :=
  (List.perm_ext_iff_of_nodup (nodup_items _).of_map hids.of_map).2
    fun _ => mem_items_told menu key hids

end Told
end Prepared

/-! ### Use -/

/-- An allocator with prepared answers and the coordinator that its cycles ask. -/
structure Deployed where
  allocator : Prepared
  coordinator : Coordinator

namespace Deployed

inductive Act where
  | request (r : Request)
  /-- From here on the coordinator gives other answers. -/
  | consult (coordinator : Coordinator)
  | recompute
  | start
  | tick

def next (d : Deployed) : Act → Deployed
  | .request r => { d with allocator := d.allocator.serve r }
  | .consult coordinator => { d with coordinator }
  | .recompute => { d with allocator := (d.allocator.cycle d.coordinator).2 }
  | .start => { d with allocator := d.allocator.start }
  | .tick => { d with allocator := d.allocator.tick d.coordinator }

def run (d : Deployed) (acts : List Act) : Deployed := acts.foldl next d

/-- The ranking that an act fetches, where it runs a cycle and the cycle succeeds. -/
def fetched (d : Deployed) : Act → Option Ranking
  | .recompute => (d.coordinator d.allocator.key).toOption
  | .tick => if d.allocator.running then (d.coordinator d.allocator.key).toOption else none
  | _ => none

/-- The cycles that succeed, in order: the allocator each of them meets and the ranking it
fetches. -/
def cycles (d : Deployed) : List Act → List (Prepared × Ranking)
  | [] => []
  | act :: rest => ((d.fetched act).map (d.allocator, ·)).toList ++ (d.next act).cycles rest

/-- An act leaves menu and key, and the snapshot unless it fetches a ranking. -/
theorem next_spec (d : Deployed) (act : Act) :
    (d.next act).allocator.menu = d.allocator.menu ∧
    (d.next act).allocator.key = d.allocator.key ∧
    (d.next act).allocator.snapshot = (d.fetched act).elim d.allocator.snapshot
      (.build (d.allocator.snapshot.generation + 1) d.allocator.menu d.allocator.items) := by
  cases act with
  | request r =>
    rw [show (d.next (.request r)).allocator = _ from d.allocator.serve_eq r]
    exact ⟨rfl, rfl, rfl⟩
  | consult coordinator => exact ⟨rfl, rfl, rfl⟩
  | recompute =>
    rw [show (d.next .recompute).allocator = _ from d.allocator.cycle_eq d.coordinator]
    exact ⟨rfl, rfl, rfl⟩
  | start => exact ⟨rfl, rfl, rfl⟩
  | tick =>
    simp only [next, fetched, Prepared.tick]
    split
    · rw [d.allocator.cycle_eq d.coordinator]
      exact ⟨rfl, rfl, rfl⟩
    · exact ⟨rfl, rfl, rfl⟩

/-! ### The last cycle -/

/-- The snapshot that cycles leave behind: the last of them built it, and its generation
counts them all. -/
def published (menu : SizeTable) (cycles : List (Prepared × Ranking)) : Snapshot :=
  match cycles.getLast? with
  | none => .empty menu
  | some (met, ranking) => .build (.ofNat cycles.length) menu met.items ranking

theorem generation_published (menu : SizeTable) (cycles : List (Prepared × Ranking)) :
    (published menu cycles).generation = .ofNat cycles.length := by
  cases cycles using List.reverseRecOn with
  | nil => rfl
  | append_singleton cycles last => simp [published, Snapshot.build]

/-- An allocator whose snapshot is the one that cycles left behind. -/
structure Stands (menu : SizeTable) (key : String) (cycles : List (Prepared × Ranking))
    (d : Deployed) : Prop where
  menu : d.allocator.menu = menu
  key : d.allocator.key = key
  snapshot : d.allocator.snapshot = published d.allocator.menu cycles

section Stands
variable {menu : SizeTable} {key : String} {cycles : List (Prepared × Ranking)} {d : Deployed}

theorem stands_next (h : Stands menu key cycles d) (act : Act) :
    Stands menu key (cycles ++ ((d.fetched act).map (d.allocator, ·)).toList) (d.next act) := by
  obtain ⟨hmenu, hkey, hsnapshot⟩ := d.next_spec act
  refine ⟨hmenu.trans h.menu, hkey.trans h.key, ?_⟩
  rw [hsnapshot, hmenu]
  cases d.fetched act with
  | none =>
    rw [Option.map_none, Option.toList_none, List.append_nil]
    exact h.snapshot
  | some ranking =>
    rw [Option.map_some, Option.toList_some, published, List.getLast?_concat, List.length_append,
      UInt64.ofNat_add, h.snapshot, generation_published]
    rfl

theorem stands_run (h : Stands menu key cycles d) (acts : List Act) :
    Stands menu key (cycles ++ d.cycles acts) (d.run acts) := by
  induction acts generalizing cycles d with
  | nil => rwa [Deployed.cycles, List.append_nil]
  | cons act rest ih =>
    rw [Deployed.cycles, ← List.append_assoc]
    exact ih (stands_next h act)

end Stands

/-- **An answer is as old as the last cycle that succeeded.** Let requests, changes of the
coordinator and cycles, failed ones among them, happen to a new allocator. Then its
generation is the number of cycles that succeeded. If there is none, every answer is empty;
otherwise the snapshot is, but for its generation, that of another new allocator which
accepts the entries that were live when the last of them ran, in any order, and runs one
cycle with the ranking fetched then, and so are all answers. What happens from then on
without a cycle that succeeds changes nothing of the snapshot. A cycle fails exactly if the
fetch does, with its error, and then changes nothing. -/
theorem as_of_last_cycle (menu : SizeTable) (key : String) (source : Coordinator)
    (acts : List Act) :
    let start : Deployed := ⟨.new menu key, source⟩
    let d := start.run acts
    d.allocator.snapshot.generation = .ofNat (start.cycles acts).length ∧
    (start.cycles acts = [] → ∀ available, d.allocator.allocate available = []) ∧
    (∀ met ranking, (start.cycles acts).getLast? = some (met, ranking) →
      ∀ items, items.Perm met.items → ∀ coordinator : Coordinator, coordinator key = .ok ranking →
        let fresh := Prepared.told menu key items
        (∀ earlier item later, items = earlier ++ item :: later →
          ((Prepared.told menu key earlier).register item.id item.size).1 = .ok ()) ∧
        fresh.items.Perm items ∧
        (fresh.cycle coordinator).1 = .ok 1 ∧
        d.allocator.snapshot = { (fresh.cycle coordinator).2.snapshot with
          generation := .ofNat (start.cycles acts).length } ∧
        ∀ available, d.allocator.allocate available =
          (fresh.cycle coordinator).2.allocate available) ∧
    (∀ later, d.cycles later = [] →
      (d.run later).allocator.snapshot = d.allocator.snapshot ∧
      ∀ available, (d.run later).allocator.allocate available =
        d.allocator.allocate available) ∧
    (∀ e, (d.allocator.cycle d.coordinator).1 = .error e ↔ d.coordinator key = .error e) ∧
    ∀ e, d.coordinator key = .error e → d.next .recompute = d := by
  intro start d
  have h : Stands menu key (start.cycles acts) d :=
    stands_run (show Stands menu key [] start from ⟨rfl, rfl, rfl⟩) acts
  have hallocate : ∀ available, d.allocator.allocate available =
      d.allocator.snapshot.allocate menu available := fun available => by
    rw [Prepared.allocate, h.menu]
  refine ⟨?_, fun hnone available => ?_, ?_, fun later hnone => ?_, fun e => ?_, fun e he => ?_⟩
  · rw [h.snapshot, generation_published]
  · rw [hallocate, h.snapshot, hnone, h.menu]
    exact Snapshot.allocate_empty menu available
  · intro met ranking hlast items hitems coordinator hfetch fresh
    have hids : (items.map (·.id)).Nodup := (hitems.map _).nodup_iff.2 met.nodup_items
    have hfresh : fresh.items.Perm items := Prepared.items_told_perm menu key hids
    have hcycle := Prepared.cycle_told menu key items hfetch
    have hsnapshot : d.allocator.snapshot = { (fresh.cycle coordinator).2.snapshot with
        generation := .ofNat (start.cycles acts).length } := by
      rw [hcycle, h.snapshot, published, hlast, h.menu]
      exact Snapshot.build_perm _ menu ranking met.nodup_items (hitems.symm.trans hfresh.symm)
    refine ⟨?_, hfresh, by rw [hcycle], hsnapshot, fun available => ?_⟩
    · rintro earlier item later rfl
      exact Prepared.told_accepts menu key hids
    · rw [hallocate, hsnapshot, Snapshot.allocate_generation, Prepared.allocate, hcycle]
  · have hlater := stands_run h later
    rw [hnone, List.append_nil] at hlater
    have hsame : (d.run later).allocator.snapshot = d.allocator.snapshot := by
      rw [hlater.snapshot, h.snapshot, hlater.menu, h.menu]
    refine ⟨hsame, fun available => ?_⟩
    rw [hallocate, Prepared.allocate, hsame, hlater.menu]
  · rw [← h.key]
    exact d.allocator.cycle_error_iff
  · have hkept := Prepared.cycle_of_error (h.key ▸ he)
    show { d with allocator := (d.allocator.cycle d.coordinator).2 } = d
    rw [hkept]

end Deployed
end EdgePlacement
