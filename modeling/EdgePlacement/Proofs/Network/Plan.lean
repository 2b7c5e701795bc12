import EdgePlacement.Proofs.Network.Loading

/-!
Plans and what is taken of them.

The plan of a reader is all there is to do where nothing fails and nothing is remembered: two
questions for each server listed and, for each piece of content as often as it comes up, two
questions and a registration. Its steps are taken in order, up to the first that fails. A question
about content that has been asked before is left out, and so is a piece whose pair has been dealt
with. The steps taken form a chain of registries in which none fails but the last
(`Taken.follow`). No question about content is among them twice (`nodup_follow`), and those about
servers are where the plan has them (`serverQuestions_follow`). -/
namespace EdgePlacement

/-- Whether a question is about a piece of content. -/
def Query.ofContent : Query → Bool
  | .identityOf _ => true
  | .bytesOf _ => true
  | _ => false

/-- Why there is no result, if there is none. -/
def reason? {α : Type} : Except Failure α → Option Failure
  | .ok _ => none
  | .error e => some e

namespace Replay

/-! ### Steps -/

/-- A question put to the reader, or a registration. -/
inductive Step where
  | ask (query : Query)
  | register (piece : Piece)

namespace Step

def query? : Step → Option Query
  | .ask query => some query
  | .register _ => none

def pair? : Step → Option (String × String)
  | .ask _ => none
  | .register piece => some piece.pair

end Step

/-- The questions among steps. -/
def questions (steps : List Step) : List Query := steps.filterMap Step.query?

/-- The pairs of the pieces that steps register. -/
def pairs (steps : List Step) : List (String × String) := steps.filterMap Step.pair?

/-- Whether steps taken before make a step needless: the same question about content, or the
registration of the same pair. -/
def Step.needless (taken : List Step) : Step → Bool
  | .ask query => query.ofContent && (questions taken).contains query
  | .register piece => (pairs taken).contains piece.pair

/-- Steps taken, the failure of the last one if it fails, and the registry after them. -/
structure Course where
  steps : List Step
  failure : Option Failure
  registry : Registry

end Replay

open Replay (Step Course questions pairs)

namespace StateReader

/-- Why a question has no answer, if it has none. -/
def refusal? (reader : StateReader) : Query → Option Failure
  | .servers => reason? reader.servers
  | .locationOf server => reason? (reader.locationOf server)
  | .contentOf server => reason? (reader.contentOf server)
  | .identityOf content => reason? (reader.identityOf content)
  | .bytesOf content => reason? (reader.bytesOf content)

/-- What there is to do for a piece of content each time it comes up. -/
def contentPlan (reader : StateReader) (location content : String) : List Step :=
  [.ask (.identityOf content), .ask (.bytesOf content)] ++
    match reader.piece location content with
    | .ok p => [.register p]
    | .error _ => []

/-- What there is to do for a server. -/
def serverPlan (reader : StateReader) (server : String) : List Step :=
  [.ask (.locationOf server), .ask (.contentOf server)] ++
    match reader.locationOf server, reader.contentOf server with
    | .ok location, .ok content => content.flatMap (reader.contentPlan location)
    | _, _ => []

/-- All there is to do. -/
def plan (reader : StateReader) : List Step :=
  [.ask .servers] ++ (reader.servers.toOption.getD []).flatMap reader.serverPlan

end StateReader

namespace Registry

/-- Takes a step. Yields its failure, if it fails. -/
def takeStep (r : Registry) (reader : StateReader) : Step → Option Failure × Registry
  | .ask query => (reader.refusal? query, r)
  | .register p =>
    match r.register p.location p.id p.size with
    | (.ok _, r) => (none, r)
    | (.error e, r) => (some (e.inReplay p.location), r)

/-- Takes the steps of a plan in order, where `taken` have been taken before, and without those
that are needless, up to the first that fails. -/
def follow (r : Registry) (reader : StateReader) (taken : List Step) : List Step → Course
  | [] => ⟨taken, none, r⟩
  | step :: rest =>
    if step.needless taken then r.follow reader taken rest
    else
      match r.takeStep reader step with
      | (none, r) => r.follow reader (taken ++ [step]) rest
      | (some e, r) => ⟨taken ++ [step], some e, r⟩

end Registry

namespace Replay

/-! ### Following a plan -/

/-- Steps that lead from one registry to another. None but the last fails, and that with the
given failure. -/
inductive Taken (reader : StateReader) :
    Registry → List Step → Option Failure → Registry → Prop where
  | nil (r : Registry) : Taken reader r [] none r
  | cons {r r₁ r' : Registry} {step : Step} {rest : List Step} {failure : Option Failure}
    (succeeds : r.takeStep reader step = (none, r₁)) (next : Taken reader r₁ rest failure r') :
    Taken reader r (step :: rest) failure r'
  | last {r r' : Registry} {step : Step} {e : Failure}
    (fails : r.takeStep reader step = (some e, r')) : Taken reader r [step] (some e) r'

section Taken
variable {reader : StateReader} {r r₁ r' : Registry} {steps : List Step} {failure : Option Failure}

theorem Taken.concat (h : Taken reader r steps none r₁) {step : Step}
    (hstep : r₁.takeStep reader step = (failure, r')) :
    Taken reader r (steps ++ [step]) failure r' := by
  induction steps generalizing r with
  | nil =>
    cases h
    cases failure with
    | none => exact .cons hstep (.nil r')
    | some e => exact .last hstep
  | cons first rest ih =>
    cases h with
    | cons succeeds next => exact .cons succeeds (ih next)

/-- A question before another one was answered. -/
theorem Taken.answered (h : Taken reader r steps failure r') {query later : Query}
    (hsub : [query, later].Sublist (questions steps)) : reader.refusal? query = none := by
  induction h with
  | nil r => cases hsub
  | @cons r r₁ r' step rest failure succeeds next ih =>
    cases step with
    | register p => exact ih hsub
    | ask first =>
      rcases List.sublist_cons_iff.1 hsub with hrest | ⟨tail, heq, -⟩
      · exact ih hrest
      · cases heq
        exact congrArg Prod.fst succeeds
  | @last r r' step e fails =>
    have hlength := hsub.length_le
    have hone : (questions [step]).length ≤ 1 := List.length_filterMap_le ..
    exact absurd (Nat.le_trans hlength hone) (by simp)

end Taken

section Follow
variable {reader : StateReader} {r r' : Registry} {taken rest : List Step} {step : Step}

theorem follow_needless (h : step.needless taken = true) :
    r.follow reader taken (step :: rest) = r.follow reader taken rest := by
  rw [Registry.follow, if_pos h]

theorem follow_succeeds (h : step.needless taken = false)
    (hstep : r.takeStep reader step = (none, r')) :
    r.follow reader taken (step :: rest) = r'.follow reader (taken ++ [step]) rest := by
  rw [Registry.follow, if_neg (by simp [h]), hstep]

theorem follow_fails (h : step.needless taken = false) {e : Failure}
    (hstep : r.takeStep reader step = (some e, r')) :
    r.follow reader taken (step :: rest) = ⟨taken ++ [step], some e, r'⟩ := by
  rw [Registry.follow, if_neg (by simp [h]), hstep]

/-- A question leaves the registry as it is. -/
theorem takeStep_ask (r : Registry) {query : Query} {failure : Option Failure}
    (h : reader.refusal? query = failure) : r.takeStep reader (.ask query) = (failure, r) := by
  rw [Registry.takeStep, h]

/-- One plan after the other. -/
def Course.andThen (course : Course) (reader : StateReader) (plan : List Step) : Course :=
  match course.failure with
  | none => course.registry.follow reader course.steps plan
  | some _ => course

theorem follow_append (r : Registry) (reader : StateReader) (taken plan later : List Step) :
    r.follow reader taken (plan ++ later) =
      (r.follow reader taken plan).andThen reader later := by
  induction plan generalizing r taken with
  | nil => rfl
  | cons step rest ih =>
    rw [List.cons_append]
    cases hstep : step.needless taken with
    | true => rw [follow_needless hstep, follow_needless hstep, ih]
    | false =>
      rcases htake : r.takeStep reader step with ⟨_ | e, r'⟩
      · rw [follow_succeeds hstep htake, follow_succeeds hstep htake, ih]
      · rw [follow_fails hstep htake, follow_fails hstep htake]
        rfl

theorem Course.andThen_nil (course : Course) (reader : StateReader) :
    course.andThen reader [] = course := by
  obtain ⟨steps, _ | e, r⟩ := course <;> rfl

theorem Course.andThen_append (course : Course) (reader : StateReader) (plan later : List Step) :
    course.andThen reader (plan ++ later) = (course.andThen reader plan).andThen reader later := by
  obtain ⟨steps, _ | e, r⟩ := course
  · exact follow_append r reader steps plan later
  · rfl

/-- The steps that are taken can be taken one after the other. -/
theorem Taken.follow {start : Registry} (h : Taken reader start taken none r) (plan : List Step) :
    let course := r.follow reader taken plan
    Taken reader start course.steps course.failure course.registry := by
  induction plan generalizing r taken with
  | nil => exact h
  | cons step rest ih =>
    simp only
    cases hstep : step.needless taken with
    | true =>
      rw [follow_needless hstep]
      exact ih h
    | false =>
      rcases htake : r.takeStep reader step with ⟨_ | e, r'⟩
      · rw [follow_succeeds hstep htake]
        exact ih (h.concat htake)
      · rw [follow_fails hstep htake]
        exact h.concat htake

/-- What holds of the steps before, and of one step more that is not needless, holds of all. -/
theorem follow_keeps {Q : List Step → Prop}
    (hstep : ∀ steps step, step.needless steps = false → Q steps → Q (steps ++ [step]))
    (h : Q taken) (r : Registry) (plan : List Step) : Q (r.follow reader taken plan).steps := by
  induction plan generalizing r taken with
  | nil => exact h
  | cons step rest ih =>
    cases hneed : step.needless taken with
    | true =>
      rw [follow_needless hneed]
      exact ih h r
    | false =>
      rcases htake : r.takeStep reader step with ⟨_ | e, r'⟩
      · rw [follow_succeeds hneed htake]
        exact ih (hstep _ _ hneed h) r'
      · rw [follow_fails hneed htake]
        exact hstep _ _ hneed h

end Follow

/-! ### Questions -/

section Questions

@[simp] theorem questions_append (steps later : List Step) :
    questions (steps ++ later) = questions steps ++ questions later :=
  List.filterMap_append ..

@[simp] theorem questions_nil : questions [] = [] := rfl

@[simp] theorem questions_ask (query : Query) (rest : List Step) :
    questions (.ask query :: rest) = query :: questions rest := rfl

@[simp] theorem questions_register (piece : Piece) : questions [.register piece] = [] :=
  List.filterMap_cons_none rfl

@[simp] theorem pairs_append (steps later : List Step) :
    pairs (steps ++ later) = pairs steps ++ pairs later :=
  List.filterMap_append ..

@[simp] theorem pairs_ask (query : Query) : pairs [.ask query] = [] := List.filterMap_cons_none rfl

/-- No question about content is asked twice. -/
theorem nodup_follow (r : Registry) (reader : StateReader) (plan : List Step) :
    ((questions (r.follow reader [] plan).steps).filter Query.ofContent).Nodup := by
  have hstart : ((questions []).filter Query.ofContent).Nodup := .nil
  refine follow_keeps (Q := fun steps => ((questions steps).filter Query.ofContent).Nodup)
    (fun steps step hstep h => ?_) hstart r plan
  cases step with
  | register p => simpa using h
  | ask query =>
    rw [questions_append, questions_ask, questions_nil, List.filter_append]
    cases hcontent : query.ofContent with
    | false => simpa [hcontent] using h
    | true =>
      have hnew : query ∉ questions steps := by simpa [Step.needless, hcontent] using hstep
      rw [List.filter_cons_of_pos hcontent, List.filter_nil, List.nodup_append]
      refine ⟨h, List.nodup_singleton _, fun a ha b hb => ?_⟩
      rintro rfl
      rw [List.mem_singleton.1 hb] at ha
      exact hnew (List.mem_of_mem_filter ha)

/-- The questions among steps that are not about content. -/
def serverQuestions (steps : List Step) : List Query :=
  (questions steps).filter fun query => !query.ofContent

theorem serverQuestions_append (steps later : List Step) :
    serverQuestions (steps ++ later) = serverQuestions steps ++ serverQuestions later := by
  unfold serverQuestions
  rw [questions_append, List.filter_append]

/-- None of these is needless. -/
theorem serverQuestions_needless {taken : List Step} {step : Step}
    (h : step.needless taken = true) : serverQuestions [step] = [] := by
  cases step with
  | register p => rfl
  | ask query =>
    have hcontent : query.ofContent = true := (Bool.and_eq_true_iff.1 h).1
    simp [serverQuestions, hcontent]

/-- They are asked in the order of the plan, as far as it is followed. -/
theorem serverQuestions_follow (r : Registry) (reader : StateReader) (taken plan : List Step) :
    serverQuestions (r.follow reader taken plan).steps <+: serverQuestions (taken ++ plan) := by
  induction plan generalizing r taken with
  | nil =>
    rw [List.append_nil]
    exact List.prefix_rfl
  | cons step rest ih =>
    cases hneed : step.needless taken with
    | true =>
      rw [follow_needless hneed, List.append_cons, serverQuestions_append, serverQuestions_append,
        serverQuestions_needless hneed, List.append_nil, ← serverQuestions_append]
      exact ih r taken
    | false =>
      rw [List.append_cons]
      rcases htake : r.takeStep reader step with ⟨_ | e, r'⟩
      · rw [follow_succeeds hneed htake]
        exact ih r' _
      · rw [follow_fails hneed htake, serverQuestions_append (taken ++ [step])]
        exact List.prefix_append ..

theorem serverQuestions_contentPlan (reader : StateReader) (location content : String) :
    serverQuestions (reader.contentPlan location content) = [] := by
  unfold StateReader.contentPlan
  cases reader.piece location content <;> rfl

theorem serverQuestions_flatMap {α : Type} (plans : α → List Step) (xs : List α) :
    serverQuestions (xs.flatMap plans) = xs.flatMap fun x => serverQuestions (plans x) := by
  induction xs with
  | nil => rfl
  | cons x rest ih => rw [List.flatMap_cons, List.flatMap_cons, serverQuestions_append, ih]

theorem serverQuestions_serverPlan (reader : StateReader) (server : String) :
    serverQuestions (reader.serverPlan server) = [.locationOf server, .contentOf server] := by
  unfold StateReader.serverPlan
  rw [serverQuestions_append]
  split
  · next location content _ _ =>
    have hcontent : serverQuestions (content.flatMap (reader.contentPlan location)) = [] := by
      rw [serverQuestions_flatMap, List.flatMap_eq_nil_iff]
      exact fun _ _ => serverQuestions_contentPlan ..
    rw [hcontent]
    rfl
  · rfl

/-- Where the servers are listed twice, so are the questions. -/
theorem serverQuestions_plan (reader : StateReader) : serverQuestions reader.plan =
    .servers :: (reader.servers.toOption.getD []).flatMap fun server =>
      [.locationOf server, .contentOf server] := by
  unfold StateReader.plan
  rw [serverQuestions_append, serverQuestions_flatMap]
  simp only [serverQuestions_serverPlan]
  rfl

end Questions

end Replay
end EdgePlacement
