import EdgePlacement.Proofs.FairQueue.Operations
import EdgePlacement.Placement.Greedy

/-!
One visit to a class.

A visit takes entries from the front of the order in which draining would yield them: what
it takes, then the entry that was too large, then what is left (`drain_haul`). So the
entries it passes over have been chosen no less often than the ones it takes. Putting back
restores every entry and raises the count of those taken (`get?_putBack`). -/
namespace EdgePlacement.Greedy

/-- The exact bytes of entries. -/
def bytes : List Entry → Nat
  | [] => 0
  | e :: es => e.size.toNat + bytes es

@[simp] theorem bytes_cons (e : Entry) (es : List Entry) :
    bytes (e :: es) = e.size.toNat + bytes es := rfl

@[simp] theorem bytes_append (a b : List Entry) : bytes (a ++ b) = bytes a + bytes b := by
  induction a with
  | nil => exact (Nat.zero_add _).symm
  | cons e a ih => simp [ih, Nat.add_assoc]

/-! ### Taking -/

theorem sound_haul {q : FairQueue} (h : q.Sound) (lower space : UInt64) :
    (haul lower space q).rest.Sound := by
  fun_induction haul lower space q with
  | case1 space q hlt => exact h
  | case2 space q hlt q' hpop =>
    obtain ⟨rfl, -, -⟩ := FairQueue.empty_of_popMin h hpop
    exact h
  | case3 space q hlt e q' hpop hlarge => exact (FairQueue.taken_of_popMin h hpop).1.sound
  | case4 space q hlt e q' hpop hfits more ih =>
    exact ih (FairQueue.taken_of_popMin h hpop).1.sound

/-- A visit takes an initial segment of the order in which entries are popped, and the one
that is too large is the next. -/
theorem drain_haul {q : FairQueue} (h : q.Sound) (lower space : UInt64) :
    q.drain = (haul lower space q).taken ++
      ((haul lower space q).tooLarge.toList ++ (haul lower space q).rest.drain) := by
  fun_induction haul lower space q with
  | case1 space q hlt => rfl
  | case2 space q hlt q' hpop =>
    obtain ⟨rfl, -, -⟩ := FairQueue.empty_of_popMin h hpop
    rfl
  | case3 space q hlt e q' hpop hlarge => exact FairQueue.drain_of_popMin hpop
  | case4 space q hlt e q' hpop hfits more ih =>
    rw [FairQueue.drain_of_popMin hpop, ih (FairQueue.taken_of_popMin h hpop).1.sound]
    rfl

/-- The space left is exactly what was not taken. -/
theorem space_haul (lower space : UInt64) (q : FairQueue) :
    (haul lower space q).space.toNat + bytes (haul lower space q).taken = space.toNat := by
  fun_induction haul lower space q with
  | case1 space q hlt => rfl
  | case2 space q hlt q' hpop => rfl
  | case3 space q hlt e q' hpop hlarge => rfl
  | case4 space q hlt e q' hpop hfits more ih =>
    have hle : e.size ≤ space := UInt64.not_lt.1 hfits
    have hle' := UInt64.le_iff_toNat_le.1 hle
    have hmore : more.space.toNat + bytes more.taken = (space - e.size).toNat := ih
    rw [UInt64.toNat_sub_of_le _ _ hle] at hmore
    show more.space.toNat + bytes (e :: more.taken) = space.toNat
    rw [bytes_cons]
    omega

/-! ### Putting back -/

/-- The entry with its count raised if it was chosen. -/
def tally (chosen : List String) (e : Entry) : Entry :=
  if e.id ∈ chosen then { e with count := e.count + 1 } else e

@[simp] theorem tally_id (chosen : List String) (e : Entry) : (tally chosen e).id = e.id := by
  unfold tally
  split <;> rfl

@[simp] theorem tally_size (chosen : List String) (e : Entry) :
    (tally chosen e).size = e.size := by
  unfold tally
  split <;> rfl

theorem sound_foldl_insert {q : FairQueue} (h : q.Sound) (es : List Entry) :
    (es.foldl FairQueue.insert q).Sound := by
  induction es generalizing q with
  | nil => exact h
  | cons e rest ih => exact ih (FairQueue.sound_insert h e)

theorem get?_foldl_insert_of_notMem {q : FairQueue} (h : q.Sound) {es : List Entry} {id : String}
    (hid : id ∉ es.map (·.id)) : (es.foldl FairQueue.insert q).get? id = q.get? id := by
  induction es generalizing q with
  | nil => rfl
  | cons e rest ih =>
    rw [List.map_cons, List.mem_cons, not_or] at hid
    rw [List.foldl_cons, ih (FairQueue.sound_insert h e) hid.2, FairQueue.get?_insert h,
      if_neg hid.1]

theorem get?_foldl_insert_of_mem {q : FairQueue} (h : q.Sound) {es : List Entry}
    (hnodup : (es.map (·.id)).Nodup) {e : Entry} (he : e ∈ es) :
    (es.foldl FairQueue.insert q).get? e.id = some e := by
  induction es generalizing q with
  | nil => cases he
  | cons a rest ih =>
    rw [List.map_cons, List.nodup_cons] at hnodup
    have hins := FairQueue.sound_insert h a
    rw [List.foldl_cons]
    rcases List.mem_cons.1 he with rfl | hrest
    · rw [get?_foldl_insert_of_notMem hins hnodup.1, FairQueue.get?_insert h, if_pos rfl]
    · exact ih hins hnodup.2 hrest

/-- Inserting the front of the drained entries again, changed or not, restores the queue. -/
theorem get?_reinsert {q rest : FairQueue} (h : q.Sound) (hrest : rest.Sound) {es : List Entry}
    (hdrain : q.drain = es ++ rest.drain) {f : Entry → Entry} (hf : ∀ e, (f e).id = e.id)
    (hkeep : ∀ e ∈ rest.drain, f e = e) (id : String) :
    ((es.map f).foldl FairQueue.insert rest).get? id = (q.get? id).map f := by
  have hnodup := FairQueue.drain_nodup h
  rw [hdrain, List.map_append, List.nodup_append] at hnodup
  obtain ⟨hes, -, hapart⟩ := hnodup
  have hids : (es.map f).map (·.id) = es.map (·.id) := by
    rw [List.map_map]
    exact List.map_congr_left fun e _ => hf e
  cases hg : q.get? id with
  | none =>
    rw [FairQueue.get?_eq_none_iff h, hdrain, List.map_append, List.mem_append, not_or] at hg
    rw [get?_foldl_insert_of_notMem hrest (by rw [hids]; exact hg.1),
      (FairQueue.get?_eq_none_iff hrest).2 hg.2]
    rfl
  | some e =>
    have hid := h.indexed.id_of_get? hg
    subst hid
    have he := (FairQueue.mem_drain_iff h).2 hg
    rw [hdrain, List.mem_append] at he
    rcases he with he | he
    · have hput := get?_foldl_insert_of_mem hrest (hids ▸ hes) (List.mem_map_of_mem he)
      rwa [hf e] at hput
    · have hout : e.id ∉ es.map (·.id) := fun hin =>
        hapart e.id hin e.id (List.mem_map_of_mem he) rfl
      rw [get?_foldl_insert_of_notMem hrest (by rw [hids]; exact hout), Option.map_some,
        hkeep e he]
      exact (FairQueue.mem_drain_iff hrest).1 he

theorem sound_putBack {q : FairQueue} (h : q.Sound) (lower space : UInt64) :
    (haul lower space q).putBack.Sound :=
  sound_foldl_insert (sound_haul h lower space) _

/-- After a visit the queue holds what it held, with the entries taken counted. -/
theorem get?_putBack {q : FairQueue} (h : q.Sound) (lower space : UInt64) (id : String) :
    (haul lower space q).putBack.get? id =
      (q.get? id).map (tally ((haul lower space q).taken.map (·.id))) := by
  have hdrain := drain_haul h lower space
  have hrest := sound_haul h lower space
  have hnodup := FairQueue.drain_nodup h
  unfold Haul.putBack
  generalize haul lower space q = v at *
  rw [hdrain, List.map_append, List.nodup_append] at hnodup
  have hapart : ∀ e ∈ v.tooLarge.toList ++ v.rest.drain, tally (v.taken.map (·.id)) e = e :=
    fun e he => if_neg fun hin => hnodup.2.2 e.id hin e.id (List.mem_map_of_mem he) rfl
  have htaken : v.taken.map (fun e : Entry => { e with count := e.count + 1 }) =
      v.taken.map (tally (v.taken.map (·.id))) :=
    List.map_congr_left fun e he => (if_pos (List.mem_map_of_mem he)).symm
  have hlarge : v.tooLarge.toList = v.tooLarge.toList.map (tally (v.taken.map (·.id))) := by
    rw [List.map_congr_left fun e he => hapart e (List.mem_append_left _ he), List.map_id']
  simp only
  rw [htaken, hlarge, ← List.map_append]
  exact get?_reinsert h hrest (by rw [hdrain, List.append_assoc]) (tally_id _)
    (fun e he => hapart e (List.mem_append_right _ he)) id

end EdgePlacement.Greedy
