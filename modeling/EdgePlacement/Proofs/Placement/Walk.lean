import EdgePlacement.Proofs.Placement.Haul
import EdgePlacement.Proofs.Size.Table

/-!
The walk from class to class.

A walk visits classes in descending order, so each visit meets its queue as it was before
the walk and no later visit touches it again. `Walked` states this together with the exact
account of the space: what a visit enters with is what the visits before it left. -/
namespace EdgePlacement.Greedy

/-! ### Queues of an allocator -/

@[simp] theorem setQueue_table (g : Greedy) (c : Nat) (q : FairQueue) :
    (g.setQueue c q).table = g.table := rfl

@[simp] theorem size_queues_setQueue (g : Greedy) (c : Nat) (q : FairQueue) :
    (g.setQueue c q).queues.size = g.queues.size := by
  simp [setQueue]

theorem queue_setQueue_self {g : Greedy} {c : Nat} (hc : c < g.queues.size) (q : FairQueue) :
    (g.setQueue c q).queue c = q := by
  simp [queue, setQueue, hc]

theorem queue_setQueue_of_ne (g : Greedy) {c k : Nat} (q : FairQueue) (h : k ≠ c) :
    (g.setQueue c q).queue k = g.queue k := by
  simp [queue, setQueue, Array.getElem?_setIfInBounds_ne (Ne.symm h)]

/-- What a visit to a class takes when it enters with a space. -/
def visit (g : Greedy) (c : Nat) (space : UInt64) : Haul :=
  haul (g.lowerBound c) space (g.queue c)

theorem visit_setQueue (g : Greedy) {c k : Nat} (q : FairQueue) (h : k ≠ c) (space : UInt64) :
    (g.setQueue c q).visit k space = g.visit k space := by
  unfold visit
  rw [queue_setQueue_of_ne g q h]
  rfl

/-! ### Walks -/

/-- The exact bytes that visits take. -/
def spent : List Visit → Nat
  | [] => 0
  | v :: visits => bytes v.taken + spent visits

@[simp] theorem spent_cons (v : Visit) (visits : List Visit) :
    spent (v :: visits) = bytes v.taken + spent visits := rfl

/-- A walk from a class downwards with a space: its visits and the allocator after it. -/
structure Walked (g : Greedy) (top : Nat) (space : UInt64) (visits : List Visit) (g' : Greedy) :
    Prop where
  table : g'.table = g.table
  placed : g'.placed = g.placed
  size : g'.queues.size = g.queues.size
  range : ∀ v ∈ visits, 1 ≤ v.sizeClass ∧ v.sizeClass ≤ top
  descending : visits.Pairwise fun a b => b.sizeClass < a.sizeClass
  /-- Each visit is one to the allocator before the walk. -/
  taken : ∀ v ∈ visits, v.taken = (g.visit v.sizeClass v.space).taken
  visited : ∀ v ∈ visits, g'.queue v.sizeClass = (g.visit v.sizeClass v.space).putBack
  skipped : ∀ c, (∀ v ∈ visits, v.sizeClass ≠ c) → g'.queue c = g.queue c
  entered : ∀ before v after, visits = before ++ v :: after →
    v.space.toNat + spent before = space.toNat
  covered : spent visits ≤ space.toNat

theorem Walked.nil (g : Greedy) (top : Nat) (space : UInt64) : Walked g top space [] g where
  table := rfl
  placed := rfl
  size := rfl
  range v hv := absurd hv List.not_mem_nil
  descending := .nil
  taken v hv := absurd hv List.not_mem_nil
  visited v hv := absurd hv List.not_mem_nil
  skipped _ _ := rfl
  entered before v after h := by simp at h
  covered := Nat.zero_le _

/-- One visit and then a walk from further down. -/
theorem Walked.cons {g g' : Greedy} {top next : Nat} {space : UInt64} {visits : List Visit}
    (hpos : 1 ≤ top) (htop : top < g.queues.size) (hnext : next < top)
    (h : Walked (g.setQueue top (g.visit top space).putBack) next (g.visit top space).space
      visits g') :
    Walked g top space (⟨top, space, (g.visit top space).taken⟩ :: visits) g' := by
  have hspace : (g.visit top space).space.toNat + bytes (g.visit top space).taken = space.toNat :=
    space_haul _ _ _
  have hbelow : ∀ v ∈ visits, v.sizeClass < top := fun v hv => by
    have := (h.range v hv).2
    omega
  have hself : g'.queue top = (g.visit top space).putBack := by
    rw [h.skipped top (fun v hv => Nat.ne_of_lt (hbelow v hv)), queue_setQueue_self htop]
  constructor
  case table => exact h.table
  case placed => exact h.placed
  case size => rw [h.size, size_queues_setQueue]
  case range =>
    rintro v (_ | ⟨_, hv⟩)
    · exact ⟨hpos, Nat.le_refl _⟩
    · exact ⟨(h.range v hv).1, Nat.le_of_lt (hbelow v hv)⟩
  case descending => exact List.pairwise_cons.2 ⟨hbelow, h.descending⟩
  case taken =>
    rintro v (_ | ⟨_, hv⟩)
    · rfl
    · rw [h.taken v hv, visit_setQueue g _ (Nat.ne_of_lt (hbelow v hv))]
  case visited =>
    rintro v (_ | ⟨_, hv⟩)
    · exact hself
    · rw [h.visited v hv, visit_setQueue g _ (Nat.ne_of_lt (hbelow v hv))]
  case skipped =>
    intro c hc
    have hct : c ≠ top := Ne.symm (hc _ (List.mem_cons_self ..))
    rw [h.skipped c (fun v hv => hc v (List.mem_cons_of_mem _ hv)), queue_setQueue_of_ne g _ hct]
  case entered =>
    intro before v after heq
    cases before with
    | nil =>
      cases heq
      rfl
    | cons first before =>
      cases heq
      have := h.entered before v after rfl
      rw [spent_cons]
      show v.space.toNat + (bytes (g.visit top space).taken + spent before) = space.toNat
      omega
  case covered =>
    have := h.covered
    rw [spent_cons]
    show bytes (g.visit top space).taken + spent visits ≤ space.toNat
    omega

theorem table_walk (g : Greedy) (top : Nat) (space : UInt64) :
    (g.walk top space).2.table = g.table := by
  fun_induction walk g top space with
  | case1 => rfl
  | case2 g top space _ _ _ _ _ hwalk ih =>
    rw [hwalk] at ih
    exact ih

theorem walked_walk {g : Greedy} {top : Nat} (htop : top < g.queues.size) (space : UInt64) :
    Walked g top space (g.walk top space).1 (g.walk top space).2 := by
  fun_induction walk g top space with
  | case1 g top space hstop => exact .nil g top space
  | case2 g top space hgo v next visits g' hwalk ih =>
    have hpos : 1 ≤ top := by omega
    have hnext : next < top := by
      have : next ≤ top - 1 := Nat.min_le_left _ _
      omega
    refine .cons hpos htop hnext ?_
    have := ih (by rw [size_queues_setQueue]; omega)
    rwa [hwalk] at this

/-- The walk of a request. -/
theorem walked_visits {g : Greedy} (hsize : g.queues.size = g.table.size) (available : UInt64) :
    Walked g (g.table.reach available) available (g.visits available).1
      (g.visits available).2 := by
  apply walked_walk
  rw [hsize]
  exact g.table.reach_lt available

end EdgePlacement.Greedy
