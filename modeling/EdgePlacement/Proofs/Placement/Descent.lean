import EdgePlacement.Proofs.Placement.Fronts

/-!
The walk, told plainly.

A visit ends early where the space falls below the threshold beneath its class, and a walk ends
where no space is left. A descent has neither of these rules (`Descent`): in each class that it
comes to it takes the longest initial segment that the space covers, of all the entries in the
order in which draining the queue would yield them, and goes on to the class below or the highest
one that the rest of the space reaches, down to class 0. There is no choice in this
(`Descent.unique`). A walk is a descent, since every entry of a class is larger than the threshold
beneath it, so what ends a visit early would not have fitted (`lt_size_of_next`). So an answer is
what the descent from the highest class reached takes, class by class
(`allocate_eq_descent`). -/
namespace EdgePlacement.Greedy

/-! ### Longest segments -/

/-- Of the initial segments whose bytes the space covers, `front` is the longest. -/
structure Longest (space : Nat) (entries front : List Entry) : Prop where
  initial : front <+: entries
  covered : bytes front ≤ space
  longest : ∀ other, other <+: entries → bytes other ≤ space → other.length ≤ front.length

section Longest
variable {space : Nat} {entries front other : List Entry}

theorem Longest.unique (h : Longest space entries front) (h' : Longest space entries other) :
    front = other := by
  have hle := h.longest other h'.initial h'.covered
  have hge := h'.longest front h.initial h.covered
  exact (List.prefix_of_prefix_length_le h.initial h'.initial hge).eq_of_length_le hle

theorem longest_of_covered (h : bytes entries ≤ space) : Longest space entries entries where
  initial := List.prefix_rfl
  covered := h
  longest _ hother _ := hother.length_le

/-- A segment is the longest if the next entry is too large for the rest of the space. -/
theorem longest_of_next {back : List Entry} (hcovered : bytes front ≤ space)
    (hnext : ∀ e later, back = e :: later → space < bytes front + e.size.toNat) :
    Longest space (front ++ back) front where
  initial := List.prefix_append _ _
  covered := hcovered
  longest := by
    intro other hother hbytes
    by_contra hlonger
    have hfront : front <+: other :=
      List.prefix_of_prefix_length_le (List.prefix_append _ _) hother (by omega)
    obtain ⟨more, rfl⟩ := hfront
    cases more with
    | nil => simp at hlonger
    | cons e more =>
      obtain ⟨later, hlater⟩ := (List.prefix_append_right_inj front).1 hother
      have := hnext e (more ++ later) hlater.symm
      rw [bytes_append, bytes_cons] at hbytes
      omega

end Longest

/-! ### Descents -/

/-- What a descent from a class with a space takes, segment by segment, where `order` gives the
entries of each class. -/
inductive Descent (table : SizeTable) (order : Nat → List Entry) :
    Nat → UInt64 → List (List Entry) → Prop where
  | bottom (space : UInt64) : Descent table order 0 space []
  | visit {c : Nat} {space left : UInt64} {segment : List Entry} {rest : List (List Entry)}
    (longest : Longest space.toNat (order (c + 1)) segment)
    (paid : left.toNat + bytes segment = space.toNat)
    (next : Descent table order (min c (table.reach left)) left rest) :
    Descent table order (c + 1) space (segment :: rest)

/-- A descent has no choice. -/
theorem Descent.unique {table : SizeTable} {order : Nat → List Entry} {c : Nat} {space : UInt64}
    {segments others : List (List Entry)} (h : Descent table order c space segments)
    (h' : Descent table order c space others) : segments = others := by
  induction h generalizing others with
  | bottom space =>
    cases h'
    rfl
  | @visit c space left segment rest longest paid next ih =>
    cases h' with
    | @visit _ _ left' segment' rest' longest' paid' next' =>
      obtain rfl : segment = segment' := longest.unique longest'
      obtain rfl : left = left' := UInt64.toNat_inj.1 (by omega)
      rw [ih next']

/-! ### Walks -/

/-- What comes after the entries of a visit is too large for the space that they leave. -/
theorem lt_size_of_next {q : FairQueue} (hq : q.Sound) {lower : UInt64}
    (hlarge : ∀ e ∈ q.drain, lower < e.size) (space : UInt64) {e : Entry} {later : List Entry}
    (hnext : (haul lower space q).tooLarge.toList ++ (haul lower space q).rest.drain = e :: later) :
    (haul lower space q).space < e.size := by
  fun_induction haul lower space q with
  | case1 space q hlt =>
    -- the space is below the threshold, and the entry is not
    have he : e ∈ q.drain := by
      rw [show q.drain = e :: later from hnext]
      exact List.mem_cons_self ..
    exact UInt64.lt_trans hlt (hlarge e he)
  | case2 space q hlt q' hpop =>
    obtain ⟨rfl, -, hempty⟩ := FairQueue.empty_of_popMin hq hpop
    have he : e ∈ q'.drain := by
      rw [show q'.drain = e :: later from hnext]
      exact List.mem_cons_self ..
    rw [FairQueue.mem_drain_iff hq, hempty] at he
    cases he
  | case3 space q hlt first q' hpop htooLarge =>
    cases hnext
    exact htooLarge
  | case4 space q hlt first q' hpop hfits more ih =>
    refine ih (FairQueue.taken_of_popMin hq hpop).1.sound (fun other hother => ?_) hnext
    refine hlarge other ?_
    rw [FairQueue.drain_of_popMin hpop]
    exact List.mem_cons_of_mem _ hother

/-- So the entries of a visit are the longest segment that fits. -/
theorem longest_haul {q : FairQueue} (hq : q.Sound) {lower : UInt64}
    (hlarge : ∀ e ∈ q.drain, lower < e.size) (space : UInt64) :
    Longest space.toNat q.drain (haul lower space q).taken := by
  have hspace := space_haul lower space q
  rw [drain_haul hq lower space]
  refine longest_of_next (by omega) fun e later hnext => ?_
  have := UInt64.lt_iff_toNat_lt.1 (lt_size_of_next hq hlarge space hnext)
  omega

/-- A walk from a class that the space reaches is a descent through its queues as they are before
the walk. -/
theorem descent_walk {g : Greedy} {order : Nat → List Entry} {top : Nat} {space : UInt64}
    (htop : top < g.queues.size) (hreach : top ≤ g.table.reach space)
    (hsound : ∀ c, c ≤ top → (g.queue c).Sound)
    (horder : ∀ c, c ≤ top → (g.queue c).drain = order c)
    (hlarge : ∀ c, 1 ≤ c → c ≤ top → ∀ e ∈ order c, g.lowerBound c < e.size) :
    Descent g.table order top space ((g.walk top space).1.map (·.taken)) := by
  fun_induction walk g top space with
  | case1 g top space hstop =>
    have hzero : top = 0 := by
      rcases hstop with hzero | rfl
      · exact hzero
      · rwa [g.table.reach_zero, Nat.le_zero] at hreach
    subst hzero
    exact .bottom space
  | case2 g top space hgo h next visits g' hwalk ih =>
    obtain ⟨c, rfl⟩ : ∃ c, top = c + 1 := ⟨top - 1, by omega⟩
    have hnext : next ≤ c := Nat.min_le_left _ _
    have hbelow : ∀ k, k ≤ next → (g.setQueue (c + 1) h.putBack).queue k = g.queue k :=
      fun k hk => queue_setQueue_of_ne g _ (by omega)
    have hrest := ih (by rw [size_queues_setQueue]; omega) (Nat.min_le_right _ _)
      (fun k hk => by rw [hbelow k hk]; exact hsound k (by omega))
      (fun k hk => by rw [hbelow k hk]; exact horder k (by omega))
      (fun k hpos hk => hlarge k hpos (by omega))
    rw [hwalk] at hrest
    refine .visit ?_ (space_haul _ _ _) hrest
    have hself := horder (c + 1) (Nat.le_refl _)
    rw [← hself]
    refine longest_haul (hsound _ (Nat.le_refl _)) ?_ space
    rw [hself]
    exact hlarge (c + 1) (Nat.succ_pos c) (Nat.le_refl _)

section Consistent
variable {g : Greedy} {t : Tracked}

/-- The entries in the queue of a class are those of the class. -/
theorem Consistent.of_mem_drain (h : g.Consistent t) {c : Nat} {e : Entry}
    (he : e ∈ (g.queue c).drain) : t e.id = some e.size ∧ g.table.classFor e.size = c :=
  h.queued c e.id e ((FairQueue.mem_drain_iff (h.sound c)).1 he)

/-- Entries are larger than the threshold beneath their class. -/
theorem Consistent.lowerBound_lt (h : g.Consistent t) {c : Nat} (hpos : 1 ≤ c) {e : Entry}
    (he : e ∈ (g.queue c).drain) : g.lowerBound c < e.size := by
  obtain ⟨-, rfl⟩ := h.of_mem_drain he
  have hlt := g.table.classFor_lt e.size
  obtain ⟨bound, hbound⟩ := Option.isSome_iff_exists.1 (SizeTable.bound?_isSome.2
    (show g.table.classFor e.size - 1 < g.table.size by omega))
  unfold lowerBound
  rw [hbound]
  exact SizeTable.bound_lt_of_lt_classFor (by omega) hbound

/-- The walk of a request is the descent from the highest class that the space reaches. -/
theorem Consistent.descent_visits (h : g.Consistent t) (available : UInt64) :
    Descent g.table (fun c => (g.queue c).drain) (g.table.reach available) available
      ((g.visits available).1.map (·.taken)) := by
  refine descent_walk ?_ (Nat.le_refl _) (fun c _ => h.sound c) (fun _ _ => rfl)
    fun c hpos _ e he => h.lowerBound_lt hpos he
  rw [h.size]
  exact g.table.reach_lt available

end Consistent

/-- **An answer is what a plain descent takes.** After any run of requests, let the entries of
each class be listed in the order in which draining its queue would yield them, before the request
for space. Then there is exactly one descent from the highest class that the space reaches, and the
answer has the ids of its segments, one after the other. -/
theorem allocate_eq_descent (table : SizeTable) (requests : List Request) (available : UInt64) :
    let g := after table requests
    ∃ segments, (g.allocate available).1 = segments.flatten.map (·.id) ∧
      ∀ others, Descent table (fun c => (g.queue c).drain) (table.reach available) available
        others ↔ others = segments := by
  intro g
  have h : g.Consistent (Tracked.after requests) := consistent_after table requests
  have hdescent := h.descent_visits available
  rw [show g.table = table from table_after table requests] at hdescent
  refine ⟨(g.visits available).1.map (·.taken), ?_, fun others => ⟨fun hothers => ?_, ?_⟩⟩
  · rw [allocate_fst, ← List.flatMap_def, List.map_flatMap]
  · exact hothers.unique hdescent
  · rintro rfl
    exact hdescent

end EdgePlacement.Greedy
