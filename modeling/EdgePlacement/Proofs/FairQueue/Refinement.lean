import EdgePlacement.Proofs.FairQueue.Operations
import Mathlib.Data.Finmap
import Mathlib.Data.Finset.Dedup

/-!
The queue is a finite map from which entries of least count are taken.

What is queued is a `Stock`: the size and the count stored under each id. A stock does not
order entries of equal count, so its steps are a relation (`Stock.Step`): popping may yield
any entry of least count. Every run of commands on an empty queue answers as some run of
the stock does, and all that can be asked of the queue it ends with is told by the stock
that run ends with (`run_refines`). -/
namespace EdgePlacement.FairQueue

/-! ### Commands -/

inductive Command where
  | insert (e : Entry)
  | popMin
  | extract (id : String)

inductive Answer where
  | inserted
  | popped (e : Option Entry)
  | extracted (result : Except Failure Entry)

def perform (q : FairQueue) : Command → Answer × FairQueue
  | .insert e => (.inserted, q.insert e)
  | .popMin => (.popped q.popMin.1, q.popMin.2)
  | .extract id => (.extracted (q.extract id).1, (q.extract id).2)

/-- The answers to a list of commands and the queue after them. -/
def run (q : FairQueue) : List Command → List Answer × FairQueue
  | [] => ([], q)
  | c :: rest => ((q.perform c).1 :: ((q.perform c).2.run rest).1, ((q.perform c).2.run rest).2)

theorem sound_perform {q : FairQueue} (h : q.Sound) (c : Command) : (q.perform c).2.Sound := by
  cases c with
  | insert e => exact sound_insert h e
  | popMin =>
    rcases popMin_cases h with ⟨hnone, -, -⟩ | ⟨e, q', hsome, -, htaken, -⟩
    · simp only [perform, hnone]
      exact h
    · simp only [perform, hsome]
      exact htaken.sound
  | extract id =>
    cases hg : q.get? id with
    | none =>
      simp only [perform, extract_of_get?_eq_none h.indexed hg]
      exact h
    | some e =>
      obtain ⟨q', hx, htaken⟩ := extract_of_get? h hg
      simp only [perform, hx]
      exact htaken.sound

theorem sound_run {q : FairQueue} (h : q.Sound) (commands : List Command) :
    (q.run commands).2.Sound := by
  induction commands generalizing q with
  | nil => exact h
  | cons c rest ih => exact ih (sound_perform h c)

/-! ### Stocks -/

/-- The size and the count stored under each id. -/
abbrev Stock := Finmap fun _ : String => UInt64 × UInt64

/-- The entry is stored, under its id. -/
def Stock.Holds (m : Stock) (e : Entry) : Prop := m.lookup e.id = some (e.size, e.count)

/-- What a command may answer and do to a stock. -/
inductive Stock.Step : Stock → Command → Answer → Stock → Prop where
  | insert (m : Stock) (e : Entry) :
    Step m (.insert e) .inserted (m.insert e.id (e.size, e.count))
  | popNone : Step ∅ .popMin (.popped none) ∅
  | pop {m : Stock} {e : Entry} (held : m.Holds e) (least : ∀ e', m.Holds e' → e.count ≤ e'.count) :
    Step m .popMin (.popped (some e)) (m.erase e.id)
  | extract {m : Stock} {e : Entry} (held : m.Holds e) :
    Step m (.extract e.id) (.extracted (.ok e)) (m.erase e.id)
  | notFound {m : Stock} {id : String} (absent : id ∉ m) :
    Step m (.extract id) (.extracted (.error (.notFound id))) m

inductive Stock.Run : Stock → List Command → List Answer → Stock → Prop where
  | nil (m : Stock) : Run m [] [] m
  | cons {m m' m'' : Stock} {c : Command} {a : Answer} {rest : List Command}
    {answers : List Answer} (step : Step m c a m') (next : Run m' rest answers m'') :
    Run m (c :: rest) (a :: answers) m''

/-- What a stock tells about a queue. -/
structure Observed (q : FairQueue) (m : Stock) : Prop where
  contains : ∀ id, q.contains id = true ↔ id ∈ m
  count? : ∀ id, q.count? id = (m.lookup id).map (·.2)
  size : q.size = m.keys.card
  isEmpty : q.isEmpty = true ↔ m = ∅
  /-- Looking at the first entry is popping without taking it out. -/
  min? : q.min? = q.popMin.1
  /-- Asking for an absent id changes nothing. -/
  absent : ∀ id, id ∉ m → q.extract id = (.error (.notFound id), q)
  drain_all : ∀ e, e ∈ q.drain ↔ m.Holds e
  drain_once : (q.drain.map (·.id)).Nodup
  drain_sorted : q.drain.Pairwise fun a b => a.count ≤ b.count

/-! ### The queue holds a stock -/

/-- The entries of the queue are those of the stock. -/
def Represents (q : FairQueue) (m : Stock) : Prop :=
  ∀ id, m.lookup id = (q.get? id).map fun e => (e.size, e.count)

theorem represents_empty : empty.Represents ∅ := by
  intro id
  rw [Finmap.lookup_empty, indexed_empty.get?_eq_none_of_size_eq_zero rfl]
  rfl

theorem Represents.holds_iff {q : FairQueue} {m : Stock} (h : q.Represents m) (hq : q.Indexed)
    {e : Entry} : m.Holds e ↔ q.get? e.id = some e := by
  unfold Stock.Holds
  rw [h e.id]
  constructor
  · intro hm
    obtain ⟨e', hg, heq⟩ := Option.map_eq_some_iff.1 hm
    have hid := hq.id_of_get? hg
    obtain ⟨id', size', count'⟩ := e'
    cases hid
    cases heq
    exact hg
  · intro hg
    rw [hg]
    rfl

theorem Represents.mem_iff {q : FairQueue} {m : Stock} (h : q.Represents m) {id : String} :
    id ∈ m ↔ (q.get? id).isSome = true := by
  rw [← Finmap.lookup_isSome, h id, Option.isSome_map]

theorem Represents.eq_empty {q : FairQueue} {m : Stock} (h : q.Represents m)
    (hnone : ∀ id, q.get? id = none) : m = ∅ := by
  apply Finmap.ext_lookup
  intro id
  rw [h id, hnone id, Finmap.lookup_empty]
  rfl

theorem Represents.insert {q : FairQueue} {m : Stock} (h : q.Represents m) (hq : q.Sound)
    (e : Entry) : (q.insert e).Represents (m.insert e.id (e.size, e.count)) := by
  intro id
  rw [get?_insert hq]
  by_cases hid : id = e.id
  · rw [if_pos hid, hid, Finmap.lookup_insert]
    rfl
  · rw [if_neg hid, Finmap.lookup_insert_of_ne _ hid]
    exact h id

theorem Represents.taken {q q' : FairQueue} {m : Stock} {e : Entry} (h : q.Represents m)
    (ht : Taken q e q') : q'.Represents (m.erase e.id) := by
  intro id
  rw [ht.get?_rest]
  by_cases hid : id = e.id
  · rw [if_pos hid, hid, Finmap.lookup_erase]
    rfl
  · rw [if_neg hid, Finmap.lookup_erase_ne hid]
    exact h id

/-- Every command does to the stock what the stock allows. -/
theorem perform_refines {q : FairQueue} {m : Stock} (hq : q.Sound) (h : q.Represents m)
    (c : Command) : ∃ m', m.Step c (q.perform c).1 m' ∧ (q.perform c).2.Represents m' := by
  cases c with
  | insert e => exact ⟨_, .insert m e, h.insert hq e⟩
  | popMin =>
    rcases popMin_cases hq with ⟨hpop, -, hnone⟩ | ⟨e, q', hpop, -, htaken, hle⟩
    · simp only [perform, hpop]
      have hm := h.eq_empty hnone
      subst hm
      exact ⟨∅, .popNone, h⟩
    · simp only [perform, hpop]
      have held := (h.holds_iff hq.indexed).2 htaken.get?_self
      exact ⟨_, .pop held (fun e' he' => hle _ _ ((h.holds_iff hq.indexed).1 he')), h.taken htaken⟩
  | extract id =>
    cases hg : q.get? id with
    | none =>
      simp only [perform, extract_of_get?_eq_none hq.indexed hg]
      have habsent : id ∉ m := by simp [h.mem_iff, hg]
      exact ⟨m, .notFound habsent, h⟩
    | some e =>
      obtain ⟨q', hx, htaken⟩ := extract_of_get? hq hg
      have held := (h.holds_iff hq.indexed).2 htaken.get?_self
      have hid := hq.indexed.id_of_get? hg
      subst hid
      simp only [perform, hx]
      exact ⟨_, .extract held, h.taken htaken⟩

theorem run_represents {q : FairQueue} {m : Stock} (hq : q.Sound) (h : q.Represents m)
    (commands : List Command) :
    ∃ m', m.Run commands (q.run commands).1 m' ∧ (q.run commands).2.Represents m' := by
  induction commands generalizing q m with
  | nil => exact ⟨m, .nil m, h⟩
  | cons c rest ih =>
    obtain ⟨m₁, hstep, h₁⟩ := perform_refines hq h c
    obtain ⟨m₂, hrun, h₂⟩ := ih (sound_perform hq c) h₁
    exact ⟨m₂, .cons hstep hrun, h₂⟩

theorem Represents.keys_eq {q : FairQueue} {m : Stock} (h : q.Represents m) (hq : q.Indexed) :
    m.keys = q.ids.toFinset := by
  ext id
  rw [Finmap.mem_keys, h.mem_iff, List.mem_toFinset, hq.mem_ids_iff]

theorem Represents.observed {q : FairQueue} {m : Stock} (h : q.Represents m) (hq : q.Sound) :
    q.Observed m where
  contains id := by rw [hq.indexed.contains_eq, h.mem_iff]
  count? id := by
    rw [h id]
    unfold FairQueue.count?
    cases q.get? id <;> rfl
  size := by
    rw [h.keys_eq hq.indexed, List.toFinset_card_of_nodup hq.indexed.nodup_ids, length_ids]
  isEmpty := by
    rw [FairQueue.isEmpty, Array.isEmpty_iff_size_eq_zero]
    constructor
    · intro hs
      exact h.eq_empty (hq.indexed.get?_eq_none_of_size_eq_zero hs)
    · rintro rfl
      have hids : q.ids.toFinset = ∅ := (h.keys_eq hq.indexed).symm
      have hnil := List.toFinset_eq_empty_iff _ |>.1 hids
      rw [← FairQueue.size, ← length_ids, hnil]
      rfl
  min? := by
    rcases popMin_cases hq with ⟨hpop, hmin, -⟩ | ⟨e, q', hpop, hmin, -, -⟩
    · rw [hpop, hmin]
    · rw [hpop, hmin]
  absent id hid := by
    rw [h.mem_iff, Bool.not_eq_true, Option.isSome_eq_false_iff, Option.isNone_iff_eq_none] at hid
    exact extract_of_get?_eq_none hq.indexed hid
  drain_all e := by rw [mem_drain_iff hq, h.holds_iff hq.indexed]
  drain_once := drain_nodup hq
  drain_sorted := FairQueue.drain_sorted hq

/-- **The queue refines a finite map with minimum extraction.** Every list of commands on an
empty queue is answered as a run of the stock answers it, and whatever is asked of the
queue afterwards, by looking or by popping until it is empty, is answered by the stock
that run ends with. -/
theorem run_refines (commands : List Command) :
    ∃ m, Stock.Run ∅ commands (empty.run commands).1 m ∧ (empty.run commands).2.Observed m := by
  obtain ⟨m, hrun, hm⟩ := run_represents sound_empty represents_empty commands
  exact ⟨m, hrun, hm.observed (sound_run sound_empty commands)⟩

end EdgePlacement.FairQueue
