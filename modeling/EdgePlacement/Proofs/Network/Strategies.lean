import EdgePlacement.Proofs.Network.Calls

/-!
Two strategies, one register of content.

Whatever an allocator does with its entries, as a register it is a set of ids: which
registrations and removals it refuses and how many entries it has is told from the calls alone
(`Keeps.book`). So the strategies cannot be told apart by these (`strategies_agree`), and what is
asked in between, requests for space and cycles that may fail, leaves no trace in them. -/
namespace EdgePlacement.Allocator

/-! ### What a register shows -/

/-- What a call lets be seen of an allocator as a register. -/
structure Line where
  /-- The answer, where the call asks for a registration or a removal. -/
  answer : Option (Except Failure Unit)
  /-- The number of entries after the call. -/
  size : Nat
  isEmpty : Bool

/-- The answer to a registration or a removal. -/
def answer (a : Allocator) : Call → Option (Except Failure Unit)
  | .request (.register id size) => some (a.register id size).1
  | .request (.unregister id) => some (a.unregister id).1
  | .request (.allocate _) => none
  | .cycle _ => none
  | .tick _ => none

/-- One line for each call. -/
def book (a : Allocator) : List Call → List Line
  | [] => []
  | call :: rest =>
    let next := a.next call
    ⟨a.answer call, next.size, next.isEmpty⟩ :: next.book rest

/-! ### The same from the calls alone -/

/-- Whether the call asks for a registration or a removal. -/
def Call.books : Call → Bool
  | .request (.register _ _) => true
  | .request (.unregister _) => true
  | .request (.allocate _) => false
  | .cycle _ => false
  | .tick _ => false

/-- The answer to a registration or a removal where these ids are kept. -/
def Call.answer (ids : Finset String) : Call → Option (Except Failure Unit)
  | .request (.register id _) => some (if id ∈ ids then .error (.duplicateEntry id) else .ok ())
  | .request (.unregister id) => some (if id ∈ ids then .ok () else .error (.notFound id))
  | .request (.allocate _) => none
  | .cycle _ => none
  | .tick _ => none

/-- The lines of a set of ids. -/
def told (ids : Finset String) : List Call → List Line
  | [] => []
  | call :: rest =>
    let next := call.keep ids
    ⟨call.answer ids, next.card, decide (next = ∅)⟩ :: told next rest

section Keeps
variable {key : String} {a : Allocator} {ids : Finset String}

theorem Keeps.answer (h : a.Keeps key ids) (call : Call) : a.answer call = call.answer ids := by
  cases call with
  | request r =>
    cases r with
    | register id size => exact congrArg some (h.register id size).1
    | unregister id => exact congrArg some (h.unregister id).1
    | allocate available => rfl
  | cycle coordinator => rfl
  | tick coordinator => rfl

theorem Keeps.isEmpty (h : a.Keeps key ids) : a.isEmpty = decide (ids = ∅) := by
  unfold Allocator.isEmpty
  rw [h.size_eq]
  exact decide_eq_decide.2 Finset.card_eq_zero

/-- An allocator shows what the ids that it keeps show, call by call. -/
theorem Keeps.book (h : a.Keeps key ids) (calls : List Call) : a.book calls = told ids calls := by
  induction calls generalizing a ids with
  | nil => rfl
  | cons call rest ih =>
    have hnext := h.next call
    simp only [Allocator.book, told]
    rw [h.answer, hnext.size_eq, hnext.isEmpty, ih hnext]

end Keeps

/-! ### What leaves no trace -/

theorem Call.isSome_answer (ids : Finset String) (call : Call) :
    (call.answer ids).isSome = call.books := by
  rcases call with (_ | _ | _) | _ | _ <;> rfl

theorem Call.keep_of_not_books {call : Call} (h : call.books = false) (ids : Finset String) :
    call.keep ids = ids := by
  rcases call with (_ | _ | _) | _ | _ <;> first | rfl | cases h

/-- The lines of registrations and removals are those of a run without any other calls. -/
theorem told_filter (ids : Finset String) (calls : List Call) :
    (told ids calls).filter (·.answer.isSome) = told ids (calls.filter (·.books)) := by
  induction calls generalizing ids with
  | nil => rfl
  | cons call rest ih =>
    simp only [told, List.filter_cons, call.isSome_answer]
    cases hcall : call.books with
    | true => simp only [if_true, told, ih]
    | false => simp only [Bool.false_eq_true, if_false, call.keep_of_not_books hcall, ih]

/-- **The strategies agree as registers of content.** Whatever the classes of the one, and the
menu, the key and the background worker of the other, over any run of registrations, removals,
requests for space and cycles, failed ones among them, allocators of the two strategies give
every registration and removal the same answer and have the same number of entries after every
call. What they show is what the calls say, and is not changed by leaving out all calls but
registrations and removals. -/
theorem strategies_agree (table menu : SizeTable) (key : String) (running : Bool)
    (calls : List Call) :
    let g : Allocator := .greedy (.new table)
    let p : Allocator := .prepared { Prepared.new menu key with running }
    g.book calls = p.book calls ∧ p.book calls = told ∅ calls ∧
      (g.book calls).filter (·.answer.isSome) = p.book (calls.filter (·.books)) := by
  intro g p
  have hg : g.Keeps g.key ∅ := (Fresh.greedy table).keeps
  have hp : p.Keeps p.key ∅ := by
    cases running with
    | false => exact (Fresh.prepared menu key).keeps
    | true => exact (Fresh.started menu key).keeps
  refine ⟨?_, hp.book calls, ?_⟩
  · rw [hg.book, hp.book]
  · rw [hg.book, hp.book, told_filter]

end EdgePlacement.Allocator
