import EdgePlacement.Proofs.Placement.Descent
import EdgePlacement.Proofs.Placement.Prepared

/-!
Space for everything.

Where the space has room for the highest threshold and for all entries, what is left after any
segments still reaches the last class. So a descent goes through every class from there down
and takes each of them whole (`descent_downward`). Class 0, to which it does not come, has
nothing but entries of size 0 as soon as a threshold is positive, and no other class has any.
So every entry that is not of size 0 is chosen (`ample_space_serves_all`). -/
namespace EdgePlacement

/-- An entry without its count. -/
def Entry.item (e : Entry) : Item := ⟨e.id, e.size⟩

namespace Greedy

theorem bytes_map_item (entries : List Entry) :
    Item.bytes (entries.map Entry.item) = bytes entries := by
  induction entries with
  | nil => rfl
  | cons e rest ih =>
    rw [List.map_cons, Item.bytes_cons, ih]
    rfl

/-! ### Class after class -/

/-- The entries of each class from `top` down to class 1. -/
def downward (order : Nat → List Entry) : Nat → List (List Entry)
  | 0 => []
  | c + 1 => order (c + 1) :: downward order c

section Downward
variable {order : Nat → List Entry} {top : Nat}

theorem mem_downward {e : Entry} :
    e ∈ (downward order top).flatten ↔ ∃ c, 1 ≤ c ∧ c ≤ top ∧ e ∈ order c := by
  induction top with
  | zero =>
    refine iff_of_false (fun h => nomatch h) ?_
    rintro ⟨c, hpos, hle, -⟩
    omega
  | succ top ih =>
    rw [downward, List.flatten_cons, List.mem_append, ih]
    constructor
    · rintro (he | ⟨c, hpos, hle, he⟩)
      · exact ⟨top + 1, by omega, Nat.le_refl _, he⟩
      · exact ⟨c, hpos, by omega, he⟩
    · rintro ⟨c, hpos, hle, he⟩
      by_cases hc : c = top + 1
      · exact .inl (hc ▸ he)
      · exact .inr ⟨c, hpos, by omega, he⟩

/-- Where no id is listed twice in one class or in two, none is listed twice. -/
theorem nodup_downward (hclass : ∀ c, ((order c).map (·.id)).Nodup)
    (happart : ∀ c e, e ∈ order c → ∀ k f, f ∈ order k → e.id = f.id → c = k) :
    ((downward order top).flatten.map (·.id)).Nodup := by
  induction top with
  | zero => exact List.nodup_nil
  | succ top ih =>
    rw [downward, List.flatten_cons, List.map_append, List.nodup_append]
    refine ⟨hclass _, ih, ?_⟩
    intro id hid other hother heq
    obtain ⟨e, he, rfl⟩ := List.mem_map.1 hid
    obtain ⟨f, hf, rfl⟩ := List.mem_map.1 hother
    obtain ⟨c, -, hle, hfc⟩ := mem_downward.1 hf
    have := happart _ e he c f hfc heq
    omega

/-- With room for the highest threshold besides all these entries, a descent takes each class
whole. -/
theorem descent_downward {table : SizeTable} {last : UInt64}
    (hlast : table.bound? (table.size - 1) = some last) (htop : top < table.size) {space : UInt64}
    (hample : last.toNat + bytes (downward order top).flatten ≤ space.toNat) :
    Descent table order top space (downward order top) := by
  induction top generalizing space with
  | zero => exact .bottom space
  | succ top ih =>
    rw [downward, List.flatten_cons, bytes_append] at hample
    obtain ⟨left, hpaid⟩ : ∃ left : UInt64,
        left.toNat + bytes (order (top + 1)) = space.toNat := by
      refine ⟨.ofNat (space.toNat - bytes (order (top + 1))), ?_⟩
      have hlt : space.toNat < UInt64.size := space.toNat_lt
      rw [UInt64.toNat_ofNat_of_lt' (by omega)]
      omega
    -- the highest threshold stays covered, so no class is skipped
    have hreach : table.size - 1 ≤ table.reach left :=
      table.le_reach_iff.2 ⟨last, hlast, UInt64.le_iff_toNat_le.2 (by omega)⟩
    refine .visit (longest_of_covered (by omega)) hpaid ?_
    rw [Nat.min_eq_left (by omega : top ≤ table.reach left)]
    exact ih (by omega) (by omega)

end Downward

/-! ### All entries -/

/-- All tracked entries, from the last class down to class 0. -/
def entries (g : Greedy) : List Entry :=
  (downward (fun c => (g.queue c).drain) (g.table.size - 1)).flatten ++ (g.queue 0).drain

section Consistent
variable {g : Greedy} {t : Tracked}

theorem Consistent.mem_entries (h : g.Consistent t) {e : Entry} :
    e ∈ g.entries ↔ ∃ c, e ∈ (g.queue c).drain := by
  rw [entries, List.mem_append, mem_downward]
  constructor
  · rintro (⟨c, -, -, he⟩ | he)
    · exact ⟨c, he⟩
    · exact ⟨0, he⟩
  · rintro ⟨c, he⟩
    have hlt := g.table.classFor_lt e.size
    rw [(h.of_mem_drain he).2] at hlt
    by_cases hc : c = 0
    · exact .inr (hc ▸ he)
    · exact .inl ⟨c, by omega, by omega, he⟩

/-- They list what is tracked. -/
theorem Consistent.lists_entries (h : g.Consistent t) :
    Prepared.Lists (g.entries.map Entry.item) t where
  nodup := by
    have happart : ∀ c e, e ∈ (g.queue c).drain → ∀ k f, f ∈ (g.queue k).drain →
        e.id = f.id → c = k := by
      intro c e he k f hf hid
      obtain ⟨hsize, rfl⟩ := h.of_mem_drain he
      obtain ⟨hsize', rfl⟩ := h.of_mem_drain hf
      rw [hid, hsize'] at hsize
      rw [Option.some.inj hsize]
    have hclass : ∀ c, ((g.queue c).drain.map (·.id)).Nodup :=
      fun c => FairQueue.drain_nodup (h.sound c)
    rw [List.map_map]
    show (g.entries.map (·.id)).Nodup
    rw [entries, List.map_append, List.nodup_append]
    refine ⟨nodup_downward hclass happart, hclass 0, ?_⟩
    intro id hid other hother heq
    obtain ⟨e, he, rfl⟩ := List.mem_map.1 hid
    obtain ⟨f, hf, rfl⟩ := List.mem_map.1 hother
    obtain ⟨c, hpos, -, hec⟩ := mem_downward.1 he
    have := happart c e hec 0 f hf heq
    omega
  mem_iff item := by
    constructor
    · intro hitem
      obtain ⟨e, he, rfl⟩ := List.mem_map.1 hitem
      obtain ⟨c, hc⟩ := h.mem_entries.1 he
      exact (h.of_mem_drain hc).1
    · intro ht
      obtain ⟨e, he, hid, hsize⟩ := h.exists_entry ht
      obtain ⟨id, size⟩ := item
      obtain rfl : e.id = id := hid
      obtain rfl : e.size = size := hsize
      refine List.mem_map.2 ⟨e, h.mem_entries.2 ⟨g.table.classFor e.size, ?_⟩, rfl⟩
      rw [FairQueue.mem_drain_iff (h.sound _)]
      exact h.get?_eq_some_iff.1 he

/-- Where there is a class besides class 0, the entries above class 0 are those not of size 0. -/
theorem Consistent.filter_entries (h : g.Consistent t) (hmore : 1 < g.table.size) :
    g.entries.filter (fun e => e.size ≠ 0) =
      (downward (fun c => (g.queue c).drain) (g.table.size - 1)).flatten := by
  have hhigh : ∀ e ∈ (downward (fun c => (g.queue c).drain) (g.table.size - 1)).flatten,
      decide (e.size ≠ 0) = true := by
    intro e he
    obtain ⟨c, hpos, -, hec⟩ := mem_downward.1 he
    have hlt := UInt64.lt_of_le_of_lt UInt64.zero_le (h.lowerBound_lt hpos hec)
    exact decide_eq_true (UInt64.ne_of_lt hlt).symm
  have hlow : ∀ e ∈ (g.queue 0).drain, ¬ decide (e.size ≠ 0) = true := by
    intro e he hne
    have hsize : 1 ≤ e.size.toNat :=
      UInt64.lt_iff_toNat_lt.1 (UInt64.pos_iff_ne_zero.2 (of_decide_eq_true hne))
    have hclass := SizeTable.one_le_classFor hmore (UInt64.le_iff_toNat_le.2 hsize)
    rw [(h.of_mem_drain he).2] at hclass
    omega
  rw [entries, List.filter_append, List.filter_eq_self.2 hhigh, List.filter_eq_nil_iff.2 hlow,
    List.append_nil]

/-- With room for the highest threshold besides all entries, the visits of a request take each
class whole. -/
theorem Consistent.visits_eq_downward (h : g.Consistent t) {last available : UInt64}
    (hlast : g.table.bound? (g.table.size - 1) = some last)
    (hample : last.toNat + bytes g.entries ≤ available.toNat) :
    (g.visits available).1.map (·.taken) =
      downward (fun c => (g.queue c).drain) (g.table.size - 1) := by
  have hlt := g.table.reach_lt available
  have hreach : g.table.size - 1 ≤ g.table.reach available :=
    g.table.le_reach_iff.2 ⟨last, hlast, UInt64.le_iff_toNat_le.2 (by omega)⟩
  have hvisits := h.descent_visits available
  rw [show g.table.reach available = g.table.size - 1 by omega] at hvisits
  rw [entries, bytes_append] at hample
  exact hvisits.unique (descent_downward hlast (by omega) (by omega))

end Consistent

/-- **Ample space serves everything.** Let a table have a threshold above 0, and let items list
what is tracked after any run of requests, each id once with its size. Then a request for a
space that has room for any of the thresholds and all these items besides is answered with the
ids of the items that are not of size 0, each once, and with nothing else. -/
theorem ample_space_serves_all (table : SizeTable) (requests : List Request) {items : List Item}
    (hlists : Prepared.Lists items (Tracked.after requests))
    (hclass : ∃ threshold ∈ table.thresholds, 0 < threshold) {available : UInt64}
    (hample : ∀ threshold ∈ table.thresholds,
      threshold.toNat + Item.bytes items ≤ available.toNat) :
    ((after table requests).allocate available).1.Perm
      ((items.filter fun item => item.size ≠ 0).map (·.id)) := by
  have h := consistent_after table requests
  have htable := table_after table requests
  generalize after table requests = g at h htable ⊢
  subst htable
  obtain ⟨threshold, hthreshold, hpos⟩ := hclass
  obtain ⟨last, hlast⟩ := Option.isSome_iff_exists.1
    (SizeTable.bound?_isSome.2 (Nat.sub_lt g.table.size_pos Nat.one_pos))
  have hperm : (g.entries.map Entry.item).Perm items := h.lists_entries.perm hlists
  have hbytes : bytes g.entries = Item.bytes items := by
    rw [← bytes_map_item, Item.bytes_perm hperm]
  have hroom := hample last (Array.mem_of_getElem? hlast)
  rw [← hbytes] at hroom
  have hanswer : (g.allocate available).1 =
      (g.entries.filter fun e => e.size ≠ 0).map (·.id) := by
    rw [h.filter_entries (SizeTable.one_lt_size hthreshold hpos),
      ← h.visits_eq_downward hlast hroom, allocate_fst, ← List.flatMap_def, List.map_flatMap]
  have hitems := (hperm.filter fun item => decide (item.size ≠ 0)).map (·.id)
  rw [List.filter_map, List.map_map] at hitems
  rw [hanswer]
  exact hitems

/-- An entry above all thresholds is served too, and one of size 0 is not. -/
theorem ample_space_serves_small_and_large :
    let table := SizeTable.ofList [10, 100]
    let requests : List Request :=
      [.register "empty" 0, .register "large" 1000, .register "small" 5]
    let items : List Item := [⟨"empty", 0⟩, ⟨"large", 1000⟩, ⟨"small", 5⟩]
    Prepared.Lists items (Tracked.after requests) ∧
      (∃ threshold ∈ table.thresholds, 0 < threshold) ∧
      (∀ threshold ∈ table.thresholds,
        threshold.toNat + Item.bytes items ≤ (1105 : UInt64).toNat) ∧
      ((after table requests).allocate 1105).1.Perm ["large", "small"] := by
  intro table requests items
  have hlists : Prepared.Lists items (Tracked.after requests) := by
    refine ⟨by decide, fun item => ?_⟩
    obtain ⟨id, size⟩ := item
    have hafter : Tracked.after requests id = if id = "small" then some 5 else
        if id = "large" then some 1000 else if id = "empty" then some 0 else none := rfl
    simp only [items, List.mem_cons, List.not_mem_nil, Item.mk.injEq, or_false, hafter]
    grind
  have hmem : ∀ threshold, threshold ∈ table.thresholds ↔
      threshold = 0 ∨ threshold = 10 ∨ threshold = 100 := by
    intro threshold
    simp [table, SizeTable.ofList]
  have hclass : ∃ threshold ∈ table.thresholds, 0 < threshold :=
    ⟨10, (hmem 10).2 (.inr (.inl rfl)), by decide⟩
  have hample : ∀ threshold ∈ table.thresholds,
      threshold.toNat + Item.bytes items ≤ (1105 : UInt64).toNat := by
    intro threshold hthreshold
    rcases (hmem threshold).1 hthreshold with rfl | rfl | rfl <;> decide
  exact ⟨hlists, hclass, hample, ample_space_serves_all table requests hlists hclass hample⟩

end Greedy
end EdgePlacement
