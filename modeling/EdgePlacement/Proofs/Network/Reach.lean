import EdgePlacement.Proofs.Network.Loading
import EdgePlacement.Proofs.Network.Usage

/-!
What becomes of a registry in use.

A registry is used through its own calls, by direct calls on its allocators and by replays, in any
order (`Reaches`). Which uses are allowed is left open: what is said of the content of a registry
holds only where nobody registers or removes past its counts (`Use.Counted`), what is said of its
slots holds whatever is done. A replay does nothing but register, so that an invariant is one as
soon as each registration and each use allowed keeps it (`Reaches.keeps`). -/
namespace EdgePlacement

/-- Entries are registered and removed through the registry only. -/
def Use.Counted : Use → Prop
  | .direct _ (.request (.register ..)) => False
  | .direct _ (.request (.unregister _)) => False
  | _ => True

namespace Registry
open Allocator

/-- What uses and replays can make of a registry, where the uses are `allowed`. -/
inductive Reaches (allowed : Use → Prop) (start : Registry) : Registry → Prop where
  | start : Reaches allowed start start
  | use {r : Registry} (h : Reaches allowed start r) (coordinator : Coordinator) {u : Use}
    (hu : allowed u) : Reaches allowed start (Service.use ⟨r, coordinator⟩ u).registry
  | replay {r : Registry} (h : Reaches allowed start r) (reader : StateReader) :
    Reaches allowed start (r.replay reader).registry

section Reaches
variable {allowed : Use → Prop} {start r : Registry}

/-- What each registration and each use that is allowed keeps, is kept. -/
theorem Reaches.keeps {Q : Registry → Prop}
    (hregister : ∀ r location id size, Q r → Q (r.register location id size).2)
    (huse : ∀ r coordinator u, allowed u → Q r → Q (Service.use ⟨r, coordinator⟩ u).registry)
    (h : start.Reaches allowed r) (hstart : Q start) : Q r := by
  induction h with
  | start => exact hstart
  | use h coordinator hu ih => exact huse _ coordinator _ hu ih
  | replay h reader ih => exact replay_keeps hregister ih reader

theorem Reaches.run {s : Service} (h : start.Reaches allowed s.registry) {uses : List Use}
    (huses : ∀ u ∈ uses, allowed u) : start.Reaches allowed (s.run uses).registry := by
  induction uses generalizing s with
  | nil => exact h
  | cons u rest ih =>
    obtain ⟨hu, hrest⟩ := List.forall_mem_cons.1 huses
    exact ih (h.use s.coordinator hu) hrest

end Reaches

/-! ### Allocators of a kind -/

/-- Every slot counts something, and the allocators that are there or could be made are all of
a kind. -/
structure Uniform (Q : Allocator → Prop) (r : Registry) : Prop where
  counts : r.Counts
  slots : ∀ (location : String) slot, r.slots[location]? = some slot → Q slot.allocator
  makes : ∀ location a, r.factory location = .ok a → Q a

section Uniform
variable {Q : Allocator → Prop} {r r' : Registry}

theorem uniform_new {factory : String → Except Failure Allocator}
    (makes : ∀ location a, factory location = .ok a → Q a) : (new factory).Uniform Q where
  counts := counts_new factory
  slots location slot hslot := by cases (slots_new factory location).symm.trans hslot
  makes := makes

variable (hnext : ∀ {a}, Q a → ∀ call, Q (a.next call))
include hnext

/-- Slots that take their turns stay uniform, if no call leads away from the kind. -/
theorem Uniform.turns (h : r.Uniform Q) {P : Call → Prop} (hfactory : r'.factory = r.factory)
    (hturn : ∀ location, ∃ accepted removed, Turn P r r' location accepted removed) :
    r'.Uniform Q where
  counts location := by
    obtain ⟨accepted, removed, ht⟩ := hturn location
    exact ht.counts (h.counts location)
  slots location slot hslot := by
    obtain ⟨accepted, removed, ht⟩ := hturn location
    rcases ht.came_from hslot with ⟨old, hold, -, leads⟩ | ⟨-, -, -, a, hmade, leads⟩
    · exact leads.keeps (fun _ call _ ha => hnext ha call) (h.slots location old hold)
    · exact leads.keeps (fun _ call _ ha => hnext ha call) (h.makes location a hmade)
  makes := hfactory ▸ h.makes

theorem Uniform.register (h : r.Uniform Q) (location id : String) (size : UInt64) :
    (r.register location id size).2.Uniform Q :=
  h.turns hnext (P := fun _ => True) (continues_register r location id size).factory fun other =>
    ⟨_, _, turn_register h.counts id size trivial location other⟩

theorem Uniform.use (h : r.Uniform Q) (coordinator : Coordinator) (u : Use) :
    (Service.use ⟨r, coordinator⟩ u).registry.Uniform Q :=
  h.turns hnext (Service.continues_use ⟨r, coordinator⟩ u).factory fun location =>
    ⟨_, _, Service.any_turn (s := ⟨r, coordinator⟩) h.counts u location⟩

theorem Uniform.replay (h : r.Uniform Q) (reader : StateReader) :
    (r.replay reader).registry.Uniform Q :=
  replay_keeps (fun _ location id size hr => hr.register hnext location id size) h reader

/-- Allocators stay of their kind whatever is done. -/
theorem Reaches.uniform {allowed : Use → Prop} {start : Registry} (h : start.Reaches allowed r)
    (hstart : start.Uniform Q) : r.Uniform Q :=
  h.keeps (fun _ location id size hr => hr.register hnext location id size)
    (fun _ coordinator u _ hr => hr.use hnext coordinator u) hstart

end Uniform

/-! ### Allocators that have what is counted -/

section Coherent
variable {keys : String → String} {r : Registry}

theorem Coherent.use (h : r.Coherent keys) (coordinator : Coordinator) {u : Use}
    (hu : u.Counted) : (Service.use ⟨r, coordinator⟩ u).registry.Coherent keys := by
  cases u with
  | event event =>
    cases event with
    | register location id size => exact h.register location id size
    | unregister location id => exact h.unregister location id
    | allocate location available => exact h.allocate location available
    | cycle order => exact h.cycleEach coordinator 0 _
    | change other => exact h
  | direct handle call =>
    refine h.act handle fun a key ids ha => ?_
    cases call with
    | cycle coordinator => exact ha.cycle coordinator
    | tick coordinator => exact ha.tick coordinator
    | request request =>
      cases request with
      | register id size => exact hu.elim
      | unregister id => exact hu.elim
      | allocate available => exact ha.allocate available
  | tick => exact h.tick coordinator

theorem Reaches.coherent {start : Registry} (h : start.Reaches Use.Counted r)
    (hstart : start.Coherent keys) : r.Coherent keys :=
  h.keeps (fun _ location id size hr => hr.register location id size)
    (fun _ coordinator _ hu hr => hr.use coordinator hu) hstart

end Coherent
end Registry
end EdgePlacement
