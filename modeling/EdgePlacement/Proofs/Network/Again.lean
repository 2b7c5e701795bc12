import EdgePlacement.Proofs.Network.Refusal

/-!
Replaying the same state twice.

A replay that succeeds leaves the first piece of its scan registered, and there it stays until
someone asks for a removal. A second replay meets it before anything else and stops at once
(`replay_again`), so nothing is counted twice. -/
namespace EdgePlacement

namespace Registry
open Allocator

/-! ### Entries that stay -/

/-- The location is live, and its allocator has the id. -/
def KeepsAt (r : Registry) (location id : String) : Prop :=
  ∃ slot, r.slots[location]? = some slot ∧ slot.allocator.KeepsId id

section KeepsAt
variable {r r' : Registry} {location id : String}

/-- Calls that are no removals leave an entry where it is. -/
theorem Turn.keepsAt {accepted : Bool} (h : Turn Call.NoRemoval r r' location accepted false)
    (hid : r.KeepsAt location id) : r'.KeepsAt location id := by
  obtain ⟨slot, there, hkeeps⟩ := hid
  obtain ⟨later, hlater, -, leads⟩ | ⟨-, -, hremoved⟩ := h.goes_on there
  · exact ⟨later, hlater, hkeeps.leads leads⟩
  · cases hremoved

/-- An accepted registration leaves its entry there. -/
theorem Uniform.keepsAt_register (h : r.Uniform Served) {size : UInt64}
    (hcall : r.register location id size = (.ok (), r')) : r'.KeepsAt location id := by
  have hout := r.registering location id size
  rw [hcall] at hout
  cases hout with
  | @accepted slot made opens accepts =>
    have hserved : slot.allocator.Served := by
      cases opens with
      | live there => exact h.slots location slot there
      | made absent makes => exact h.makes location _ makes
    exact ⟨_, (slots_setSlot ..).trans (if_pos rfl), hserved.keepsId_register size⟩

/-- A second registration of an entry is refused and changes nothing. -/
theorem KeepsAt.register (hid : r.KeepsAt location id) (h : r.Counts) (size : UInt64) :
    ∃ r', r.register location id size = (.error (.duplicateEntry id), r') ∧ r.Unchanged r' := by
  obtain ⟨slot, there, hkeeps⟩ := hid
  have hanswer : (r.register location id size).1 = .error (.duplicateEntry id) :=
    (register_answer there ..).trans (congrArg Prod.fst (hkeeps.register size))
  exact ⟨_, Prod.ext hanswer rfl, (h.register_of_error hanswer).1⟩

/-- Registering pieces leaves an entry where it is. -/
theorem KeepsAt.load (hid : r.KeepsAt location id) (h : r.Uniform Served) (done : List Piece)
    (stretch : List (Except Failure Piece)) : (r.load done stretch).2.KeepsAt location id := by
  refine (load_keeps (Q := fun r => r.Uniform Served ∧ r.KeepsAt location id)
    (fun r other id size hr => ⟨hr.1.register Served.next other id size, ?_⟩) ⟨h, hid⟩ done
    stretch).2
  exact (turn_register hr.1.counts id size (fun _ hcall => by cases hcall) other location).keepsAt
    hr.2

/-- Where loading gets to the end, it has registered the first piece, if there is one. -/
theorem Uniform.load_of_ok (h : r.Uniform Served) {stretch : List (Except Failure Piece)} {all : List Piece}
    (hload : (r.load [] stretch).1 = .ok all) :
    stretch = [] ∧ all = [] ∨ ∃ first rest, stretch = .ok first :: rest ∧ 0 < all.length ∧
      (r.load [] stretch).2.KeepsAt first.location first.id := by
  match stretch with
  | [] =>
    cases hload
    exact .inl ⟨rfl, rfl⟩
  | .error e :: rest => cases hload
  | .ok first :: rest =>
    have hnew : first.pair ∉ ([] : List Piece).map Piece.pair := List.not_mem_nil
    rcases hcall : r.register first.location first.id first.size with ⟨e | _, next⟩
    · rw [load_refused hnew hcall] at hload
      cases hload
    · rw [load_accepted hnew hcall] at hload ⊢
      have hnext : next.Uniform Served := by
        have huniform := h.register Served.next first.location first.id first.size
        rwa [hcall] at huniform
      exact .inr ⟨first, rest, rfl, (prefix_of_load (Prod.ext hload rfl)).length_le,
        (h.keepsAt_register hcall).load hnext _ rest⟩

/-- Loading stops at once if its first piece is there, and changes nothing. -/
theorem Counts.load_of_keepsAt (h : r.Counts) {first : Piece}
    (hid : r.KeepsAt first.location first.id) (rest : List (Except Failure Piece)) :
    (r.load [] (.ok first :: rest)).1 = .error (.inconsistent first.location first.id) ∧
      r.Unchanged (r.load [] (.ok first :: rest)).2 := by
  obtain ⟨r', hcall, hsame⟩ := hid.register h first.size
  rw [load_refused List.not_mem_nil hcall]
  exact ⟨rfl, hsame⟩

end KeepsAt
end Registry

namespace Service

/-- A use that asks for no removal removes nothing. -/
theorem removes_eq_false {u : Use} (h : ∀ call, u.Asks call → call.NoRemoval) (location : String)
    (s : Service) : s.removes location u = false := by
  cases u with
  | event event =>
    cases event with
    | unregister other id => exact absurd rfl (h _ rfl id)
    | _ => rfl
  | _ => rfl

theorem keepsAt_run {s : Service} (hcounts : s.registry.Counts) {location id : String}
    (hid : s.registry.KeepsAt location id) {uses : List Use}
    (huses : ∀ u ∈ uses, ∀ call, u.Asks call → call.NoRemoval) :
    (s.run uses).registry.KeepsAt location id := by
  induction uses generalizing s with
  | nil => exact hid
  | cons u rest ih =>
    obtain ⟨hu, hrest⟩ := List.forall_mem_cons.1 huses
    have hturn := turn_use hcounts u hu location
    rw [removes_eq_false hu] at hturn
    exact ih (counts_use hcounts u) (hturn.keepsAt hid) hrest

end Service

namespace Registry

/-! ### Twice -/

/-- **A replay does not count twice.** Let registry calls, replays and direct calls have led to
a registry into which a replay succeeds, from an empty one whose factory makes allocators in order,
and let nobody ask for a removal after it, neither through the registry nor of an allocator. Then
replaying the same state again leaves the registry as it is. It fails for the first piece of the
scan if the first replay has registered anything, and has the same report if it has not. -/
theorem replay_again {factory : String → Except Failure Allocator}
    (makes : ∀ location a, factory location = .ok a → a.Served) {r : Registry}
    (hr : (new factory).Reaches (fun _ => True) r) {reader : StateReader} {report : Report}
    (hreport : (r.replay reader).result = .ok report) (coordinator : Coordinator)
    {between : List Use} (hbetween : ∀ u ∈ between, ∀ call, u.Asks call → call.NoRemoval) :
    let found := (Service.run ⟨(r.replay reader).registry, coordinator⟩ between).registry
    found.Unchanged (found.replay reader).registry ∧
      (0 < report.entries → ∃ first rest, reader.scan = .ok first :: rest ∧
        (found.replay reader).result = .error (.inconsistent first.location first.id)) ∧
      (report.entries = 0 → (found.replay reader).result = .ok report) := by
  intro found
  have hfound : (new factory).Reaches (fun _ => True) found :=
    Reaches.run (s := ⟨_, coordinator⟩) (hr.replay reader) fun _ _ => trivial
  obtain ⟨hresult, hregistry⟩ := r.replay_eq_load reader
  obtain ⟨hresult', hregistry'⟩ := found.replay_eq_load reader
  rw [hresult] at hreport
  cases hload : (r.load [] reader.scan).1 with
  | error e =>
    rw [hload] at hreport
    cases hreport
  | ok all =>
    rw [hload] at hreport
    cases hreport
    rw [hresult', hregistry']
    obtain ⟨hscan, rfl⟩ | ⟨first, rest, hscan, hsome, hkeeps⟩ := (hr.served makes).load_of_ok hload
    · rw [hscan]
      exact ⟨.refl found, fun hsome => absurd hsome (Nat.lt_irrefl 0), fun _ => rfl⟩
    · -- The first piece has stayed where it is through what came between.
      have hkept : found.KeepsAt first.location first.id := by
        refine Service.keepsAt_run ((hr.replay reader).served makes).counts ?_ hbetween
        rwa [← hregistry] at hkeeps
      obtain ⟨hfails, hsame⟩ := (hfound.served makes).counts.load_of_keepsAt hkept rest
      rw [hscan, hfails]
      exact ⟨hsame, fun _ => ⟨first, rest, rfl, rfl⟩,
        fun hnone => absurd hnone (Nat.ne_of_gt hsome)⟩

/-- A film that two servers of a location have counts once, and not again the second time,
whatever was asked for in between. -/
theorem replay_again_film :
    let r := refusing (.ofList [1024]) []
    let reader : StateReader :=
      { servers := .ok ["a", "b"]
        locationOf := fun _ => .ok "eu"
        contentOf := fun _ => .ok ["c"]
        identityOf := fun _ => .ok "film"
        bytesOf := fun _ => .ok 20 }
    let between : List Use :=
      [.event (.allocate "eu" 100), .event (.cycle .listed),
        .direct ⟨"eu", 0⟩ (.request (.allocate 10))]
    let found := (Service.run ⟨(r.replay reader).registry, fun _ => .ok ∅⟩ between).registry
    (∀ location a, r.factory location = .ok a → a.Served) ∧ r.Reaches (fun _ => True) r ∧
      (r.replay reader).result = .ok ⟨2, 1, 1⟩ ∧
      (∀ u ∈ between, ∀ call, u.Asks call → call.NoRemoval) ∧
      found.Unchanged (found.replay reader).registry ∧
      (found.replay reader).result = .error (.inconsistent "eu" "film") := by
  intro r reader between found
  have hmakes : ∀ location a, r.factory location = .ok a → a.Served :=
    fun location a ha => .fresh (fresh_of_refusing ha)
  let film : Piece := ⟨"eu", "film", 20⟩
  have hscan : reader.scan = [.ok film, .ok film] := rfl
  have hresult : (r.replay reader).result = .ok ⟨2, 1, 1⟩ := by
    have hcall : (r.register film.location film.id film.size).1 = .ok () := by
      simp [r, film, Registry.register, slotFor, refusing, Registry.new, Allocator.register,
        Greedy.register, Greedy.new]
    rw [(r.replay_eq_load reader).1, hscan,
      load_accepted List.not_mem_nil (Prod.ext hcall rfl), load_again (List.mem_singleton_self _)]
    rfl
  have hbetween : ∀ u ∈ between, ∀ call, u.Asks call → call.NoRemoval := by
    simp [between, Use.Asks, Allocator.Call.NoRemoval]
  obtain ⟨hsame, hsome, -⟩ := replay_again hmakes .start hresult (fun _ => .ok ∅) hbetween
  obtain ⟨first, rest, hfirst, hagain⟩ := hsome Nat.one_pos
  cases hscan.symm.trans hfirst
  exact ⟨hmakes, .start, hresult, hbetween, hsame, hagain⟩

end Registry
end EdgePlacement
