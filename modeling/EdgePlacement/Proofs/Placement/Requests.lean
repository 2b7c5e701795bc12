import Mathlib.Data.List.Infix
import EdgePlacement.Placement.Greedy
import EdgePlacement.Proofs.FairQueue.Index

/-!
Requests to an allocator and what is registered after them.

`Tracked` says under which size each id is registered. It follows from the requests alone:
a registration counts unless the id is registered already, a removal clears the id, and a
request for space changes nothing. Whatever an allocator keeps has to agree with it. -/
namespace EdgePlacement

/-- A call on an allocator. -/
inductive Request where
  | register (id : String) (size : UInt64)
  | unregister (id : String)
  | allocate (available : UInt64)
deriving DecidableEq, Repr

namespace Request

/-- Whether a call is one for space. -/
def isAllocate : Request → Bool
  | .register .. => false
  | .unregister _ => false
  | .allocate _ => true

/-- How many of the calls are for space. -/
def calls (requests : List Request) : Nat := requests.countP isAllocate

@[simp] theorem calls_append (a b : List Request) : calls (a ++ b) = calls a + calls b :=
  List.countP_append

end Request

/-! ### What is registered -/

/-- The size under which each tracked id is registered. -/
abbrev Tracked := String → Option UInt64

namespace Tracked

def none : Tracked := fun _ => .none

/-- The id with the size, or without one. -/
def set (t : Tracked) (id : String) (size : Option UInt64) : Tracked :=
  fun other => if other = id then size else t other

def next (t : Tracked) : Request → Tracked
  | .register id size => if (t id).isSome then t else t.set id (some size)
  | .unregister id => t.set id .none
  | .allocate _ => t

/-- What is registered after requests to a new allocator. -/
def after (requests : List Request) : Tracked := requests.foldl next none

/-- The bytes ids take at the sizes they are registered with. -/
def bytes (t : Tracked) : List String → Nat
  | [] => 0
  | id :: ids => ((t id).map UInt64.toNat).getD 0 + t.bytes ids

theorem after_append (a b : List Request) : after (a ++ b) = b.foldl next (after a) := by
  rw [after, List.foldl_append]
  rfl

@[simp] theorem set_self (t : Tracked) (id : String) (size : Option UInt64) :
    t.set id size id = size := if_pos rfl

theorem set_of_ne (t : Tracked) {id other : String} (size : Option UInt64) (h : other ≠ id) :
    t.set id size other = t other := if_neg h

/-- Clearing an id that is not tracked changes nothing. -/
theorem set_none_of_none (t : Tracked) {id : String} (h : t id = .none) : t.set id .none = t := by
  funext other
  by_cases ho : other = id
  · rw [ho, t.set_self, h]
  · exact t.set_of_ne _ ho

/-- An id is tracked after each of the later requests, and before the first of them. -/
def Throughout (before later : List Request) (id : String) : Prop :=
  ∀ soFar, soFar <+: later → (after (before ++ soFar) id).isSome = true

instance (before later : List Request) (id : String) : Decidable (Throughout before later id) :=
  decidable_of_iff (∀ soFar ∈ later.inits, (after (before ++ soFar) id).isSome = true) (by
    simp only [Throughout, List.mem_inits])

theorem Throughout.concat {before later : List Request} {r : Request} {id : String}
    (h : Throughout before (later ++ [r]) id) :
    Throughout before later id ∧ ((after (before ++ later)).next r id).isSome = true := by
  refine ⟨fun soFar hp => h soFar (hp.trans (List.prefix_append ..)), ?_⟩
  have hlast := h _ (List.prefix_refl _)
  rw [← List.append_assoc, after_append] at hlast
  exact hlast

/-- The size of an id does not change while it stays tracked. -/
theorem next_of_some {t : Tracked} {id : String} {size : UInt64} (h : t id = some size)
    {r : Request} (hstays : (t.next r id).isSome = true) : t.next r id = some size := by
  cases r with
  | register other new =>
    simp only [next] at hstays ⊢
    split
    · exact h
    · next hother =>
      rw [t.set_of_ne _ fun hid => hother (by rw [← hid, h]; rfl)]
      exact h
  | unregister other =>
    simp only [next] at hstays ⊢
    by_cases hid : id = other
    · rw [hid, t.set_self] at hstays
      cases hstays
    · rw [t.set_of_ne _ hid]
      exact h
  | allocate available => exact h

@[simp] theorem bytes_cons (t : Tracked) (id : String) (ids : List String) :
    t.bytes (id :: ids) = ((t id).map UInt64.toNat).getD 0 + t.bytes ids := rfl

@[simp] theorem bytes_append (t : Tracked) (a b : List String) :
    t.bytes (a ++ b) = t.bytes a + t.bytes b := by
  induction a with
  | nil => exact (Nat.zero_add _).symm
  | cons id a ih => simp [ih, Nat.add_assoc]

end Tracked

namespace Greedy

/-- The allocator after a request. -/
def serve (g : Greedy) : Request → Greedy
  | .register id size => (g.register id size).2
  | .unregister id => (g.unregister id).2
  | .allocate available => (g.allocate available).2

/-- A new allocator after requests. -/
def after (table : SizeTable) (requests : List Request) : Greedy :=
  requests.foldl serve (new table)

theorem after_append (table : SizeTable) (a b : List Request) :
    after table (a ++ b) = b.foldl serve (after table a) := by
  rw [after, List.foldl_append]
  rfl

end Greedy
end EdgePlacement
