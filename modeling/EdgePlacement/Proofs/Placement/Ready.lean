import EdgePlacement.Proofs.Placement.Tracking

/-!
Allocators that choose from what they track.

A greedy allocator always chooses from what is tracked at the moment, and one with prepared
answers does so after a cycle that has succeeded (`Tracks.ready`). From then on, for as long as
only requests for space are made, every answer has distinct ids, all of them tracked, which fit
the space together (`Ready.answers`). -/
namespace EdgePlacement.Allocator

/-- The allocator chooses from what is tracked. -/
inductive Ready (t : Tracked) : Allocator → Prop where
  | greedy {g : Greedy} (consistent : g.Consistent t) : Ready t (.greedy g)
  | prepared {p : Prepared} {items : List Item} {ranking : Ranking} {generation : UInt64}
    (lists : Prepared.Lists items t)
    (snapshot : p.snapshot = .build generation p.menu items ranking) : Ready t (.prepared p)

/-- A cycle that succeeds makes an allocator choose from what it tracks. -/
theorem Tracks.ready {key : String} {a : Allocator} {t : Tracked} (h : a.Tracks key t)
    {coordinator : Coordinator} {generation : Option UInt64}
    (hok : (a.cycle coordinator).1 = .ok generation) : (a.cycle coordinator).2.Ready t := by
  cases a with
  | greedy g => exact .greedy h
  | prepared p =>
    obtain ⟨menu, record, hp, rfl⟩ := h
    rw [cycle_prepared] at hok ⊢
    unfold Prepared.cycle at hok ⊢
    cases hfetch : coordinator p.key with
    | error e =>
      rw [hfetch] at hok
      cases hok
    | ok ranking => exact .prepared hp.lists_items rfl

section Ready
variable {t : Tracked} {a : Allocator}

/-- One request: its answer, and the allocator after it. -/
theorem Ready.allocate (h : a.Ready t) (available : UInt64) :
    ((a.allocate available).1.Nodup ∧ (∀ id ∈ (a.allocate available).1, (t id).isSome = true) ∧
      t.bytes (a.allocate available).1 ≤ available.toNat) ∧
    (a.allocate available).2.Ready t := by
  cases h with
  | @greedy g consistent =>
    refine ⟨⟨consistent.nodup_allocate available, fun id hid => ?_, ?_⟩,
      .greedy (Greedy.consistent_allocate consistent available)⟩
    · obtain ⟨size, hsize, -, -⟩ := consistent.class_of_mem hid
      rw [hsize]
      rfl
    · show t.bytes (g.allocate available).1 ≤ _
      rw [consistent.bytes_allocate]
      exact (Greedy.walked_visits consistent.size available).covered
  | @prepared p items ranking generation lists snapshot =>
    refine ⟨?_, .prepared lists snapshot⟩
    show (p.allocate available).Nodup ∧ (∀ id ∈ p.allocate available, _) ∧
      t.bytes (p.allocate available) ≤ available.toNat
    unfold Prepared.allocate
    rw [snapshot]
    exact lists.fits generation p.menu ranking available

/-! ### One request after the other -/

/-- The answers to a number of requests for `available` bytes. -/
def answers (a : Allocator) (available : UInt64) : Nat → List (List String)
  | 0 => []
  | more + 1 => (a.allocate available).1 :: (a.allocate available).2.answers available more

@[simp] theorem length_answers (a : Allocator) (available : UInt64) (n : Nat) :
    (a.answers available n).length = n := by
  induction n generalizing a with
  | zero => rfl
  | succ n ih => simp only [answers, List.length_cons, ih]

/-- Prepared answers are the same until the next cycle. -/
theorem answers_prepared (p : Prepared) (available : UInt64) (n : Nat) :
    (prepared p).answers available n = List.replicate n (p.allocate available) := by
  induction n with
  | zero => rfl
  | succ n ih => exact congrArg (p.allocate available :: ·) ih

theorem Ready.answers (h : a.Ready t) (available : UInt64) (n : Nat) :
    ∀ ids ∈ a.answers available n,
      ids.Nodup ∧ (∀ id ∈ ids, (t id).isSome = true) ∧ t.bytes ids ≤ available.toNat := by
  induction n generalizing a with
  | zero => exact fun ids hids => (List.not_mem_nil hids).elim
  | succ n ih =>
    obtain ⟨hanswer, hnext⟩ := h.allocate available
    exact List.forall_mem_cons.2 ⟨hanswer, ih hnext⟩

end Ready
end EdgePlacement.Allocator
