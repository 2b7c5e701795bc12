import EdgePlacement.Proofs.Placement.Prepared

/-!
Why an answer cannot fail.

To answer, a snapshot is indexed by what the menu says and by positions that another of its
arrays gave, and space is subtracted that nobody compares first. `allocate?` is the same
answer with each of these steps made to fail where it would go wrong. What keeps it from
failing is the shape of a snapshot (`WellFormed`): one solution per budget, which fits the
budget exactly, and two arrays of one length. Every snapshot that is ever published has this
shape (`published_wellFormed`), whatever the entries, and however large all of them together. -/
namespace EdgePlacement

/-! ### Answers with every step checked -/

/-- The space left beside a size, if it has room for the size. -/
def Size.sub? (space size : UInt64) : Option UInt64 :=
  if size ≤ space then some (space - size) else none

theorem Size.sub?_of_le {space size : UInt64} (h : size ≤ space) :
    sub? space size = some (space - size) := if_pos h

namespace Snapshot

/-- `topOff` with its accesses and its subtraction checked. -/
def topOff? (s : Snapshot) (taken : Std.HashSet String) : Nat → UInt64 → Option (List String)
  | 0, _ => some []
  | count + 1, space =>
    if space = 0 then some []
    else do
      let size ← s.sizes[count]?
      let id ← s.ids[count]?
      if size ≤ space ∧ id ∉ taken then
        let space ← Size.sub? space size
        let ids ← topOff? s taken count space
        some (id :: ids)
      else topOff? s taken count space

/-- `allocate` with its accesses and its subtractions checked. -/
def allocate? (s : Snapshot) (menu : SizeTable) (available : UInt64) : Option (List String) := do
  let solution ← s.solutions[menu.reach available]?
  let space ← Size.sub? available solution.bytes
  match Size.lastAtMost s.sizes space with
  | none => some solution.ids
  | some largest =>
    let ids ← s.topOff? (.ofList solution.ids) (largest + 1) space
    some (solution.ids ++ ids)

section Checked
variable {s : Snapshot}

theorem topOff?_eq (hparallel : s.ids.size = s.sizes.size) (taken : Std.HashSet String)
    {count : Nat} (hcount : count ≤ s.sizes.size) (space : UInt64) :
    s.topOff? taken count space = some (s.topOff taken count space) := by
  induction count generalizing space with
  | zero => rfl
  | succ count ih =>
    have hlt : count < s.sizes.size := hcount
    have hlt' : count < s.ids.size := hparallel ▸ hcount
    have hsize : s.sizes[count]? = some s.sizes[count] := Array.getElem?_eq_getElem hlt
    have hid : s.ids[count]? = some s.ids[count] := Array.getElem?_eq_getElem hlt'
    have hless : count ≤ s.sizes.size := by omega
    rw [topOff?, topOff, hsize, hid]
    by_cases hspace : space = 0
    · rw [if_pos hspace, if_pos hspace]
    rw [if_neg hspace, if_neg hspace]
    simp only [Option.bind_eq_bind, Option.bind_some]
    split
    · next hfits => rw [Size.sub?_of_le hfits.1, Option.bind_some, ih hless, Option.bind_some]
    · exact ih hless space

/-- The last size that fits is one of the sizes. -/
theorem lastAtMost_lt {sorted : Array UInt64} (h : sorted.toList.Pairwise (· ≤ ·))
    {value : UInt64} {last : Nat} (hlast : Size.lastAtMost sorted value = some last) :
    last < sorted.size := by
  obtain ⟨x, hx, -⟩ := (Size.lastAtMost_iff h value last).1 ⟨last, hlast, Nat.le_refl _⟩
  exact (Array.getElem?_eq_some_iff.1 hx).1

/-- No step goes wrong where the menu names a solution that fits and the other two arrays
belong together. -/
theorem allocate?_eq {menu : SizeTable} {available : UInt64} {solution : Solution}
    (hsolution : s.solutions[menu.reach available]? = some solution)
    (hbytes : solution.bytes ≤ available) (hparallel : s.ids.size = s.sizes.size)
    (hascending : s.sizes.toList.Pairwise (· ≤ ·)) :
    s.allocate? menu available = some (s.allocate menu available) := by
  have hget : s.solution (menu.reach available) = solution := by
    rw [Snapshot.solution, hsolution, Option.getD_some]
  unfold allocate? allocate
  rw [hsolution, hget]
  simp only [Option.bind_eq_bind, Option.bind_some, Size.sub?_of_le hbytes]
  cases hlast : Size.lastAtMost s.sizes (available - solution.bytes) with
  | none => rfl
  | some largest =>
    have hlt := lastAtMost_lt hascending hlast
    simp only [topOff?_eq hparallel _ hlt, Option.bind_some]

end Checked

/-! ### Shape -/

/-- The items of a snapshot, position by position. -/
def items (s : Snapshot) : List Item :=
  (s.ids.toList.zip s.sizes.toList).map fun (id, size) => ⟨id, size⟩

/-- Strictly before by size, then id. -/
def Precedes (a b : Item) : Prop := a.size < b.size ∨ a.size = b.size ∧ a.id < b.id

/-- A solution names entries of a copy, each once, and its bytes are exactly theirs and
within the budget. -/
structure Spends (copy : Tracked) (ids : Array String) (budget : UInt64) (solution : Solution) :
    Prop where
  nodup : solution.ids.Nodup
  known : ∀ id ∈ solution.ids, id ∈ ids
  bytes : solution.bytes.toNat = copy.bytes solution.ids
  within : solution.bytes ≤ budget

structure WellFormed (menu : SizeTable) (copy : Tracked) (s : Snapshot) : Prop where
  solutions : s.solutions.size = menu.size
  parallel : s.ids.size = s.sizes.size
  /-- The items are the entries of the copy, each once. -/
  lists : Prepared.Lists s.items copy
  ascending : s.items.Pairwise Precedes
  spends : ∀ b budget, menu.bound? b = some budget →
    ∃ solution, s.solutions[b]? = some solution ∧ Spends copy s.ids budget solution
  /-- The budget 0 is spent on nothing. -/
  nothing : s.solutions[0]? = some .empty

section WellFormed
variable {menu : SizeTable} {copy : Tracked} {s : Snapshot}

theorem WellFormed.sizes_eq (h : s.WellFormed menu copy) :
    s.items.map (·.size) = s.sizes.toList := by
  unfold items
  rw [List.map_map]
  exact List.map_snd_zip (by simp [h.parallel])

theorem WellFormed.ascending_sizes (h : s.WellFormed menu copy) :
    s.sizes.toList.Pairwise (· ≤ ·) := by
  rw [← h.sizes_eq]
  refine List.pairwise_map.2 (h.ascending.imp fun {a b} hab => ?_)
  rcases hab with hlt | ⟨heq, -⟩
  · exact UInt64.le_of_lt hlt
  · exact UInt64.le_of_eq heq

/-- The highest budget covered has a solution, which the space covers too. -/
theorem WellFormed.exists_solution (h : s.WellFormed menu copy) (available : UInt64) :
    ∃ solution, s.solutions[menu.reach available]? = some solution ∧
      solution.bytes ≤ available := by
  obtain ⟨solution, hsolution, hspends⟩ := h.spends _ _ (menu.bound?_reach_eq available)
  exact ⟨solution, hsolution, UInt64.le_trans hspends.within (menu.within_le available)⟩

/-- A well-formed snapshot answers every request, and no step on the way goes wrong. -/
theorem WellFormed.allocate?_eq (h : s.WellFormed menu copy) (available : UInt64) :
    s.allocate? menu available = some (s.allocate menu available) := by
  obtain ⟨solution, hsolution, hbytes⟩ := h.exists_solution available
  exact Snapshot.allocate?_eq hsolution hbytes h.parallel h.ascending_sizes

end WellFormed

/-! ### Snapshots that cycles build -/

section Build
variable (generation : UInt64) (menu : SizeTable) {items : List Item} (ranking : Ranking)
  {copy : Tracked}

theorem items_build (items : List Item) :
    (build generation menu items ranking).items = bySize items := by
  unfold Snapshot.items build bySize
  rw [List.toList_toArray, List.toList_toArray, List.zip_map', List.map_map]
  exact List.map_id _

/-- No two items have the same id, so the order by size and id is strict. -/
theorem precedes_bySize (hids : (items.map (·.id)).Nodup) :
    (bySize items).Pairwise Precedes := by
  refine (Item.strict_mergeSort smaller_iff hids).imp fun {a b} hab => ?_
  rcases hab with hlt | ⟨heq, hid⟩
  · exact .inl (UInt64.lt_iff_toNat_lt.2 (Int.ofNat_lt.1 hlt))
  · exact .inr ⟨UInt64.toNat_inj.1 (Int.ofNat_inj.1 heq), hid⟩

/-- What a cycle packs for a budget. -/
theorem spends_ofBudget (hlists : Prepared.Lists items copy) (budget : UInt64) :
    Spends copy (build generation menu items ranking).ids budget
      (.ofBudget (Solution.inOrder ranking items) budget) where
  nodup := by
    have hordered : ((Solution.inOrder ranking items).map (·.id)).Nodup :=
      ((Solution.perm_inOrder ranking items).map _).nodup_iff.2 hlists.nodup
    exact ((Solution.take_sublist budget _).map _).nodup hordered
  known id hid := by
    obtain ⟨item, hitem, rfl⟩ := List.mem_map.1 hid
    have hordered := (Solution.take_sublist budget _).subset hitem
    have hlisted := (Solution.perm_inOrder ranking items).mem_iff.1 hordered
    simpa [build] using ⟨item, hlisted, rfl⟩
  bytes := by
    rw [Solution.bytes_ofBudget]
    refine (hlists.bytes_eq fun item hitem => ?_).symm
    exact (Solution.perm_inOrder ranking items).mem_iff.1
      ((Solution.take_sublist budget _).subset hitem)
  within := by
    have hsum := Solution.left_add_bytes budget (Solution.inOrder ranking items)
    rw [UInt64.le_iff_toNat_le, Solution.bytes_ofBudget]
    omega

theorem wellFormed_build (hlists : Prepared.Lists items copy) :
    (build generation menu items ranking).WellFormed menu copy where
  solutions := by simp [build, SizeTable.size]
  parallel := by simp [build]
  lists := by
    rw [items_build]
    exact ⟨((perm_bySize items).map _).nodup_iff.2 hlists.nodup,
      fun item => (perm_bySize items).mem_iff.trans (hlists.mem_iff item)⟩
  ascending := by
    rw [items_build]
    exact precedes_bySize hlists.nodup
  spends b budget hb := by
    have hthreshold : menu.thresholds[b]? = some budget := hb
    refine ⟨_, ?_, spends_ofBudget generation menu ranking hlists budget⟩
    simp [build, hthreshold]
  nothing := by
    rw [← Solution.ofBudget_zero (Solution.inOrder ranking items)]
    simp [build, menu.zero_first]

end Build
end Snapshot

namespace Prepared

/-- What was published last is a well-formed snapshot of what it copied. -/
theorem Current.wellFormed {menu : SizeTable} {snapshot : Snapshot}
    {published : List (Tracked × Ranking)} (h : Current menu snapshot published) :
    snapshot.WellFormed menu (Record.copyOf published) := by
  obtain ⟨generation, items, ranking, hlists, rfl⟩ := h.built
  exact Snapshot.wellFormed_build generation menu ranking hlists

/-- **Every published snapshot is well formed, so no answer can fail.** After any run of
requests and cycles, failed ones among them, the snapshot lists what the last cycle that
succeeded copied, each entry once and in strictly ascending order by size and id, and has for
every budget of the menu a solution of such entries whose bytes are exactly theirs and within
the budget. So whatever space is asked for, the solution to start from is there, its bytes do
not exceed the space, and every later access and subtraction goes right as well. -/
theorem published_wellFormed (menu : SizeTable) (key : String) (events : List Event) :
    let p := after menu key events
    p.menu = menu ∧ p.snapshot.WellFormed menu (Record.after key events).copy ∧
    ∀ available,
      (∃ solution, p.snapshot.solutions[menu.reach available]? = some solution ∧
        solution.bytes ≤ available) ∧
      p.snapshot.allocate? menu available = some (p.allocate available) := by
  intro p
  have h : Follows menu key p (.after key events) := follows_after menu key events
  have hsnapshot := h.snapshot
  rw [h.menu] at hsnapshot
  have hwell : p.snapshot.WellFormed menu (Record.after key events).copy := hsnapshot.wellFormed
  refine ⟨h.menu, hwell, fun available => ⟨hwell.exists_solution available, ?_⟩⟩
  rw [Prepared.allocate, h.menu]
  exact hwell.allocate?_eq available

end Prepared
end EdgePlacement
