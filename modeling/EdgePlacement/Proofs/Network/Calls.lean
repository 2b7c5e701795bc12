import EdgePlacement.Proofs.Network.Content

/-!
Calls on an allocator, whoever makes them.

The registry calls the allocators of its locations, and so does anyone who has got hold of
one. `Leads` says that calls of some kind take one allocator to another, `Served` that calls
of any kind have taken a fresh allocator to this one. An allocator that has been served keeps
a set of ids (`Served.keeps`), refuses a registration for exactly these and a removal for
exactly the others, and changes nothing when it refuses. -/
namespace EdgePlacement.Allocator

/-- What an allocator can be asked. -/
inductive Call where
  | request (r : Request)
  | cycle (coordinator : Coordinator)
  /-- The background worker takes its turn. -/
  | tick (coordinator : Coordinator)

/-- The allocator after a call. -/
def next (a : Allocator) : Call → Allocator
  | .request (.register id size) => (a.register id size).2
  | .request (.unregister id) => (a.unregister id).2
  | .request (.allocate available) => (a.allocate available).2
  | .cycle coordinator => (a.cycle coordinator).2
  | .tick coordinator => a.tick coordinator

/-- The ids kept after a call: a registration adds one and a removal clears one. -/
def Call.keep (ids : Finset String) : Call → Finset String
  | .request (.register id _) => insert id ids
  | .request (.unregister id) => ids.erase id
  | .request (.allocate _) => ids
  | .cycle _ => ids
  | .tick _ => ids

theorem Keeps.next {key : String} {a : Allocator} {ids : Finset String} (h : a.Keeps key ids)
    (call : Call) : (a.next call).Keeps key (call.keep ids) := by
  cases call with
  | request r =>
    cases r with
    | register id size => exact (h.register id size).2
    | unregister id => exact (h.unregister id).2
    | allocate available => exact h.allocate available
  | cycle coordinator => exact h.cycle coordinator
  | tick coordinator => exact h.tick coordinator

/-! ### From one allocator to another -/

/-- Calls that are all of a kind take the one allocator to the other. -/
def Leads (P : Call → Prop) (a b : Allocator) : Prop :=
  ∃ calls : List Call, (∀ call ∈ calls, P call) ∧ b = calls.foldl next a

section Leads
variable {P : Call → Prop} {a b c : Allocator}

theorem Leads.refl (P : Call → Prop) (a : Allocator) : Leads P a a :=
  ⟨[], fun _ hcall => (List.not_mem_nil hcall).elim, rfl⟩

theorem Leads.one {call : Call} (h : P call) (a : Allocator) : Leads P a (a.next call) :=
  ⟨[call], fun _ hcall => List.mem_singleton.1 hcall ▸ h, rfl⟩

theorem Leads.trans (hab : Leads P a b) (hbc : Leads P b c) : Leads P a c := by
  obtain ⟨first, hfirst, rfl⟩ := hab
  obtain ⟨second, hsecond, rfl⟩ := hbc
  refine ⟨first ++ second, fun call hcall => ?_, (List.foldl_append ..).symm⟩
  rcases List.mem_append.1 hcall with hmem | hmem
  · exact hfirst call hmem
  · exact hsecond call hmem

/-- What each of the calls keeps, all of them keep. -/
theorem Leads.keeps {Q : Allocator → Prop} (h : Leads P a b)
    (hnext : ∀ a call, P call → Q a → Q (a.next call)) (ha : Q a) : Q b := by
  obtain ⟨calls, hcalls, rfl⟩ := h
  induction calls generalizing a with
  | nil => exact ha
  | cons call rest ih =>
    obtain ⟨hcall, hrest⟩ := List.forall_mem_cons.1 hcalls
    exact ih (hnext a call hcall ha) hrest

end Leads

/-! ### Allocators in use -/

/-- An allocator that was fresh once. -/
inductive Served : Allocator → Prop where
  | fresh {a : Allocator} (h : a.Fresh) : Served a
  | next {a : Allocator} (h : Served a) (call : Call) : Served (a.next call)

theorem Served.keeps {a : Allocator} (h : a.Served) : ∃ key ids, a.Keeps key ids := by
  induction h with
  | fresh hfresh => exact ⟨_, _, hfresh.keeps⟩
  | next _ call ih =>
    obtain ⟨key, ids, hkeeps⟩ := ih
    exact ⟨key, _, hkeeps.next call⟩

/-! ### Refusals -/

/-- A registration is refused because the id is there, and then changes nothing. -/
theorem register_of_error {a : Allocator} {id : String} {size : UInt64} {e : Failure}
    (h : (a.register id size).1 = .error e) :
    e = .duplicateEntry id ∧ (a.register id size).2 = a := by
  cases a with
  | greedy g =>
    simp only [register, Greedy.register] at h ⊢
    split at h
    · next hid =>
      rw [if_pos hid]
      cases h
      exact ⟨rfl, rfl⟩
    · cases h
  | prepared p =>
    simp only [register, Prepared.register] at h ⊢
    split at h
    · next hid =>
      rw [if_pos hid]
      cases h
      exact ⟨rfl, rfl⟩
    · cases h

/-- A removal is refused because the id is not there, and then changes nothing. -/
theorem Served.unregister_of_error {a : Allocator} (hserved : a.Served) {id : String}
    {e : Failure} (h : (a.unregister id).1 = .error e) :
    e = .notFound id ∧ (a.unregister id).2 = a := by
  obtain ⟨key, ids, t, ht, hids⟩ := hserved.keeps
  have hanswer := (ht.unregister id).1
  rw [h] at hanswer
  cases htracked : t id with
  | some size =>
    rw [htracked] at hanswer
    cases hanswer
  | none =>
    rw [htracked] at hanswer
    cases hanswer
    refine ⟨rfl, ?_⟩
    cases a with
    | greedy g => simp only [unregister, Greedy.unregister_of_untracked ht htracked]
    | prepared p =>
      obtain ⟨menu, record, hp, rfl⟩ := ht
      have hcontains : p.live.contains id = false := by rw [hp.contains_live, htracked]; rfl
      simp [unregister, Prepared.unregister, hcontains]

/-! ### Ids that stay -/

/-- The id is among those that the allocator keeps. -/
def KeepsId (a : Allocator) (id : String) : Prop := ∃ key ids, a.Keeps key ids ∧ id ∈ ids

/-- The call does not ask for a removal. -/
def Call.NoRemoval (call : Call) : Prop := ∀ id, call ≠ .request (.unregister id)

theorem Served.keepsId_register {a : Allocator} (hserved : a.Served) {id : String}
    (size : UInt64) : (a.register id size).2.KeepsId id := by
  obtain ⟨key, ids, hkeeps⟩ := hserved.keeps
  exact ⟨key, _, (hkeeps.register id size).2, Finset.mem_insert_self ..⟩

/-- An id stays for as long as no removal is asked for. -/
theorem KeepsId.next {a : Allocator} {id : String} (h : a.KeepsId id) {call : Call}
    (hcall : call.NoRemoval) : (a.next call).KeepsId id := by
  obtain ⟨key, ids, hkeeps, hid⟩ := h
  refine ⟨key, _, hkeeps.next call, ?_⟩
  cases call with
  | request r =>
    cases r with
    | register other size => exact Finset.mem_insert_of_mem hid
    | unregister other => exact absurd rfl (hcall other)
    | allocate available => exact hid
  | cycle coordinator => exact hid
  | tick coordinator => exact hid

theorem KeepsId.leads {a b : Allocator} {id : String} (h : a.KeepsId id)
    (hleads : Leads Call.NoRemoval a b) : b.KeepsId id :=
  hleads.keeps (Q := (KeepsId · id)) (fun _ _ hcall hkeeps => hkeeps.next hcall) h

/-- An id that is there is not registered again. -/
theorem KeepsId.register {a : Allocator} {id : String} (h : a.KeepsId id) (size : UInt64) :
    a.register id size = (.error (.duplicateEntry id), a) := by
  obtain ⟨key, ids, hkeeps, hid⟩ := h
  have hanswer := (hkeeps.register id size).1
  rw [if_pos hid] at hanswer
  exact Prod.ext hanswer (register_of_error hanswer).2

end EdgePlacement.Allocator
