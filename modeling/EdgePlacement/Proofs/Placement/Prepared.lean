import EdgePlacement.Placement.Prepared
import EdgePlacement.Proofs.Placement.Requests
import EdgePlacement.Proofs.Placement.Snapshot

/-!
Prepared answers over runs.

A `Record` is what a run amounts to, told from its events alone: what is registered,
whether cycles run in the background, and what each cycle that succeeded copied and
fetched. An allocator follows its record (`Follows`): its live entries are those registered
and its snapshot is the one built of what was published last. -/
namespace EdgePlacement

/-- What can happen to an allocator with prepared answers. -/
inductive Prepared.Event where
  | request (r : Request)
  | cycle (coordinator : Coordinator)
  | start
  | tick (coordinator : Coordinator)

namespace Prepared

/-- The allocator after a request. -/
def serve (p : Prepared) : Request → Prepared
  | .register id size => (p.register id size).2
  | .unregister id => (p.unregister id).2
  | .allocate _ => p

def next (p : Prepared) : Event → Prepared
  | .request r => p.serve r
  | .cycle coordinator => (p.cycle coordinator).2
  | .start => p.start
  | .tick coordinator => p.tick coordinator

/-- A new allocator after events. -/
def after (menu : SizeTable) (key : String) (events : List Event) : Prepared :=
  events.foldl next (new menu key)

/-- A cycle whose key gets no answer publishes nothing. -/
theorem cycle_of_error {p : Prepared} {coordinator : Coordinator} {e : Failure}
    (h : coordinator p.key = .error e) : p.cycle coordinator = (.error e, p) := by
  unfold cycle
  rw [h]

/-! ### Live entries -/

theorem nodup_items (p : Prepared) : (p.items.map (·.id)).Nodup := by
  unfold items
  rw [List.map_map]
  show (p.live.toList.map Prod.fst).Nodup
  rw [Std.HashMap.map_fst_toList_eq_keys]
  exact Std.HashMap.nodup_keys

theorem mem_items_iff {p : Prepared} {item : Item} :
    item ∈ p.items ↔ p.live[item.id]? = some item.size := by
  rw [← Std.HashMap.mem_toList_iff_getElem?_eq_some]
  unfold items
  constructor
  · intro hitem
    obtain ⟨entry, hentry, rfl⟩ := List.mem_map.1 hitem
    exact hentry
  · intro hentry
    exact List.mem_map.2 ⟨_, hentry, rfl⟩

/-! ### Records -/

structure Record where
  live : Tracked
  running : Bool
  /-- What the cycles that succeeded copied and fetched, the latest first. -/
  published : List (Tracked × Ranking)

namespace Record

def empty : Record := ⟨.none, false, []⟩

/-- A cycle whose fetch succeeds copies what is registered. -/
def cycle (record : Record) : Except Failure Ranking → Record
  | .error _ => record
  | .ok ranking => { record with published := (record.live, ranking) :: record.published }

def next (key : String) (record : Record) : Event → Record
  | .request r => { record with live := record.live.next r }
  | .cycle coordinator => record.cycle (coordinator key)
  | .start => { record with running := true }
  | .tick coordinator => if record.running then record.cycle (coordinator key) else record

def after (key : String) (events : List Event) : Record := events.foldl (next key) empty

/-- What the first of these copied; nothing if there is none. -/
def copyOf : List (Tracked × Ranking) → Tracked
  | [] => .none
  | (copy, _) :: _ => copy

/-- What the last cycle that succeeded copied. -/
def copy (record : Record) : Tracked := copyOf record.published

end Record

/-! ### Following a record -/

/-- Items that list what is tracked, each id once. -/
structure Lists (items : List Item) (t : Tracked) : Prop where
  nodup : (items.map (·.id)).Nodup
  mem_iff : ∀ item, item ∈ items ↔ t item.id = some item.size

/-- Two lists of what is tracked list the same. -/
theorem Lists.perm {items others : List Item} {t : Tracked} (h : Lists items t)
    (h' : Lists others t) : items.Perm others :=
  (List.perm_ext_iff_of_nodup h.nodup.of_map h'.nodup.of_map).2 fun item => by
    rw [h.mem_iff, h'.mem_iff]

/-- A snapshot built of what was published last. -/
def Current (menu : SizeTable) (snapshot : Snapshot) : List (Tracked × Ranking) → Prop
  | [] => snapshot = .empty menu
  | (copy, ranking) :: earlier => ∃ items, Lists items copy ∧
      snapshot = .build (.ofNat (earlier.length + 1)) menu items ranking

structure Follows (menu : SizeTable) (key : String) (p : Prepared) (record : Record) : Prop where
  menu : p.menu = menu
  key : p.key = key
  live : ∀ id, p.live[id]? = record.live id
  running : p.running = record.running
  snapshot : Current p.menu p.snapshot record.published

variable {menu : SizeTable} {key : String}

/-- As many generations have been published as cycles succeeded. -/
theorem Current.generation {snapshot : Snapshot} {published : List (Tracked × Ranking)}
    (h : Current menu snapshot published) : snapshot.generation = .ofNat published.length := by
  cases published with
  | nil => rw [show snapshot = .empty menu from h]; rfl
  | cons last earlier =>
    obtain ⟨items, -, rfl⟩ := h
    rfl

/-- A current snapshot is built of what was copied last, of nothing before the first cycle. -/
theorem Current.built {snapshot : Snapshot} {published : List (Tracked × Ranking)}
    (h : Current menu snapshot published) : ∃ generation items ranking,
      Lists items (Record.copyOf published) ∧ snapshot = .build generation menu items ranking := by
  cases published with
  | nil =>
    refine ⟨0, [], ∅, ⟨List.nodup_nil, fun item => by simp [Record.copyOf, Tracked.none]⟩, ?_⟩
    rw [show snapshot = .empty menu from h, Snapshot.empty_eq_build]
  | cons last earlier =>
    obtain ⟨items, hlists, rfl⟩ := h
    exact ⟨_, items, last.2, hlists, rfl⟩

theorem follows_new (menu : SizeTable) (key : String) :
    Follows menu key (new menu key) .empty where
  menu := rfl
  key := rfl
  live id := by simp [new, Record.empty, Tracked.none]
  running := rfl
  snapshot := rfl

section Follows
variable {p : Prepared} {record : Record}

theorem Follows.lists_items (h : Follows menu key p record) : Lists p.items record.live where
  nodup := p.nodup_items
  mem_iff item := by rw [mem_items_iff, h.live]

/-- Changing what is known of one id. -/
theorem Follows.set (h : Follows menu key p record) {id : String} {size : Option UInt64}
    {live : Std.HashMap String UInt64}
    (hlive : ∀ other, live[other]? = if other = id then size else p.live[other]?) :
    Follows menu key { p with live := live } { record with live := record.live.set id size } where
  menu := h.menu
  key := h.key
  live other := by
    show live[other]? = record.live.set id size other
    by_cases ho : other = id
    · rw [hlive, if_pos ho, ho, Tracked.set_self]
    · rw [hlive, if_neg ho, Tracked.set_of_ne _ _ ho, h.live]
  running := h.running
  snapshot := h.snapshot

theorem Follows.contains_live (h : Follows menu key p record) (id : String) :
    p.live.contains id = (record.live id).isSome := by
  rw [Std.HashMap.contains_eq_isSome_getElem?, h.live]

theorem follows_serve (h : Follows menu key p record) (r : Request) :
    Follows menu key (p.serve r) (record.next key (.request r)) := by
  cases r with
  | register id size =>
    simp only [serve, register, Record.next, Tracked.next, h.contains_live]
    cases record.live id with
    | none => exact h.set (getElem?_insert_id p.live id size)
    | some old => exact h
  | unregister id =>
    simp only [serve, unregister, Record.next, Tracked.next, h.contains_live]
    cases ht : record.live id with
    | none =>
      rw [Tracked.set_none_of_none _ ht]
      exact h
    | some old => exact h.set (getElem?_erase_id p.live id)
  | allocate available => exact h

theorem follows_cycle (h : Follows menu key p record) (coordinator : Coordinator) :
    Follows menu key (p.cycle coordinator).2 (record.cycle (coordinator key)) := by
  have hlists := h.lists_items
  obtain ⟨rfl, rfl, hlive, hrunning, hsnapshot⟩ := h
  unfold cycle
  cases coordinator p.key with
  | error e => exact ⟨rfl, rfl, hlive, hrunning, hsnapshot⟩
  | ok ranking =>
    refine ⟨rfl, rfl, hlive, hrunning, p.items, hlists, ?_⟩
    show Snapshot.build (p.snapshot.generation + 1) _ _ _ = _
    rw [hsnapshot.generation, UInt64.ofNat_add]
    rfl

/-- One event keeps an allocator and its record together. -/
theorem follows_next (h : Follows menu key p record) (event : Event) :
    Follows menu key (p.next event) (record.next key event) := by
  cases event with
  | request r => exact follows_serve h r
  | cycle coordinator => exact follows_cycle h coordinator
  | start => exact ⟨h.menu, h.key, h.live, rfl, h.snapshot⟩
  | tick coordinator =>
    simp only [next, tick, Record.next, h.running]
    split
    · exact follows_cycle h coordinator
    · exact h

theorem follows_foldl (h : Follows menu key p record) (events : List Event) :
    Follows menu key (events.foldl next p) (events.foldl (Record.next key) record) := by
  induction events generalizing p record with
  | nil => exact h
  | cons event rest ih => exact ih (follows_next h event)

end Follows

theorem follows_after (menu : SizeTable) (key : String) (events : List Event) :
    Follows menu key (after menu key events) (.after key events) :=
  follows_foldl (follows_new menu key) events

/-! ### Capacity -/

theorem Lists.bytes_eq {items : List Item} {t : Tracked} (h : Lists items t) {chosen : List Item}
    (hsub : chosen ⊆ items) : t.bytes (chosen.map (·.id)) = Item.bytes chosen := by
  induction chosen with
  | nil => rfl
  | cons item rest ih =>
    obtain ⟨hitem, hrest⟩ := List.cons_subset.1 hsub
    rw [List.map_cons, Tracked.bytes_cons, Item.bytes_cons, (h.mem_iff item).1 hitem, ih hrest]
    rfl

/-- A snapshot built of items answers with distinct ids among them, which fit the space. -/
theorem Lists.fits {items : List Item} {t : Tracked} (h : Lists items t) (generation : UInt64)
    (menu : SizeTable) (ranking : Ranking) (available : UInt64) :
    let ids := (Snapshot.build generation menu items ranking).allocate menu available
    ids.Nodup ∧ (∀ id ∈ ids, (t id).isSome = true) ∧ t.bytes ids ≤ available.toNat := by
  have hsub := Snapshot.answer_subset menu items ranking available
  rw [Snapshot.allocate_build]
  refine ⟨Snapshot.answer_nodup menu ranking available h.nodup, fun id hid => ?_, ?_⟩
  · obtain ⟨item, hitem, rfl⟩ := List.mem_map.1 hid
    rw [(h.mem_iff item).1 (hsub hitem)]
    rfl
  · rw [h.bytes_eq hsub]
    exact Snapshot.bytes_answer_le menu items ranking available

/-- A current snapshot answers with distinct ids of the last copy, which fit the space at
the sizes they have there. -/
theorem Current.fits {snapshot : Snapshot} {published : List (Tracked × Ranking)}
    (h : Current menu snapshot published) (available : UInt64) :
    (snapshot.allocate menu available).Nodup ∧
    (∀ id ∈ snapshot.allocate menu available, (Record.copyOf published id).isSome = true) ∧
    (Record.copyOf published).bytes (snapshot.allocate menu available) ≤ available.toNat := by
  obtain ⟨generation, items, ranking, hlists, rfl⟩ := h.built
  exact hlists.fits generation menu ranking available

/-- **A prepared answer never overcommits the space.** After any run of requests and
cycles, failed ones among them, the live entries are those registered, and the ids that
answer a request for `available` bytes are distinct, were registered when the last cycle
that succeeded copied the live entries, and fit together, exactly, at the sizes they had in
that copy. -/
theorem allocate_fits_copy (menu : SizeTable) (key : String) (events : List Event)
    (available : UInt64) :
    let p := after menu key events
    let record := Record.after key events
    (∀ id, p.live[id]? = record.live id) ∧
    (p.allocate available).Nodup ∧
    (∀ id ∈ p.allocate available, (record.copy id).isSome = true) ∧
    record.copy.bytes (p.allocate available) ≤ available.toNat := by
  intro p record
  have h : Follows menu key p record := follows_after menu key events
  have hfits := h.snapshot.fits available
  exact ⟨h.live, hfits⟩

end Prepared
end EdgePlacement
