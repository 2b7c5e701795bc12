import EdgePlacement.Proofs.Network.Afresh
import EdgePlacement.Proofs.Network.Plan

/-!
What a replay asks.

A replay follows the plan of its reader: what it remembers is what the steps taken have told it,
and it leaves out just the steps that are needless. Its questions are theirs, and it fails where
they fail and leaves the registry that they leave (`replay_eq_follow`). So it asks whatever it
asks about content once, which makes no difference to what comes of it (`replay_asks_once`). -/
namespace EdgePlacement

open Replay (Step Course questions pairs)

namespace Replay

/-- The size of a piece is asked where its functional id has been asked before. -/
def Introduced (steps : List Step) : Prop :=
  ∀ content, .bytesOf content ∈ questions steps →
    [.identityOf content, .bytesOf content].Sublist (questions steps)

/-- A replay remembers what the steps taken have told it. -/
structure Tells (reader : StateReader) (taken : List Step) (s : Replay) : Prop where
  asked : questions taken = s.asked.reverse
  recalls : s.Recalls reader
  known : ∀ content, content ∈ s.resolved →
    [.identityOf content, .bytesOf content].Sublist (questions taken)
  unknown : ∀ content, content ∉ s.resolved →
    .identityOf content ∉ questions taken ∧ .bytesOf content ∉ questions taken
  seen : ∀ pair, pair ∈ s.seen ↔ pair ∈ pairs taken

/-- What comes of a replay where this comes of its plan. -/
inductive Enacts (reader : StateReader) : Course → Except Failure Unit × Replay → Prop where
  | finished {s : Replay} {taken : List Step} (tells : s.Tells reader taken) :
    Enacts reader ⟨taken, none, s.registry⟩ (.ok (), s)
  | stopped {s : Replay} {taken : List Step} (asked : questions taken = s.asked.reverse)
    (introduced : Introduced taken) (e : Failure) :
    Enacts reader ⟨taken, some e, s.registry⟩ (.error e, s)

section Enacts
variable {reader : StateReader} {s : Replay} {taken : List Step}

theorem Tells.introduced (h : s.Tells reader taken) : Introduced taken := fun content hcontent =>
  h.known content (Decidable.not_not.1 fun hunknown => (h.unknown content hunknown).2 hcontent)

/-- A step more that asks for no size leaves the sizes asked where they are. -/
theorem Introduced.concat (h : Introduced taken) {step : Step}
    (hstep : ∀ content, .bytesOf content ∉ questions [step]) :
    Introduced (taken ++ [step]) := by
  intro content hcontent
  rw [questions_append] at hcontent ⊢
  have hbefore := (List.mem_append.1 hcontent).resolve_right (hstep content)
  exact (h content hbefore).trans (List.sublist_append_left ..)

theorem tells_start (r : Registry) (reader : StateReader) : (start r).Tells reader [] where
  asked := rfl
  recalls := recalls_start r reader
  known content hknown := by simp [start] at hknown
  unknown content _ := ⟨List.not_mem_nil, List.not_mem_nil⟩
  seen pair := by simp [start, pairs]

/-- A question about servers is told, whatever the answer. -/
theorem Tells.ask (h : s.Tells reader taken) {query : Query} (hquery : query.ofContent = false) :
    (s.ask query).Tells reader (taken ++ [.ask query]) := by
  have hnew : ∀ content, .identityOf content ≠ query ∧ .bytesOf content ≠ query := by
    intro content
    constructor <;> (rintro rfl; cases hquery)
  refine ⟨?_, h.recalls, fun content hknown => ?_, fun content hunknown => ?_, fun pair => ?_⟩
  · simp [h.asked, Replay.ask]
  · rw [questions_append]
    exact (h.known content hknown).trans (List.sublist_append_left ..)
  · obtain ⟨hid, hbytes⟩ := h.unknown content hunknown
    simp [hid, hbytes, (hnew content).1, (hnew content).2]
  · simpa [Replay.ask] using h.seen pair

/-- What is asked about a piece of content for the first time. -/
theorem Introduced.pair (h : Introduced taken) (content : String) :
    Introduced (taken ++ [.ask (.identityOf content)] ++ [.ask (.bytesOf content)]) := by
  intro other hother
  simp only [questions_append, questions_ask, questions_nil, List.append_assoc, List.mem_append,
    List.mem_singleton, reduceCtorEq, false_or] at hother ⊢
  rcases hother with hbefore | heq
  · exact (h other hbefore).trans (List.sublist_append_left ..)
  · cases heq
    exact List.sublist_append_right ..

theorem Tells.resolve (h : s.Tells reader taken) {content id : String} {size : UInt64}
    (hpiece : ∀ location, reader.piece location content = .ok ⟨location, id, size⟩) :
    Tells reader (taken ++ [.ask (.identityOf content)] ++ [.ask (.bytesOf content)])
      { (s.ask (.identityOf content)).ask (.bytesOf content) with
        resolved := s.resolved.insert content (id, size) } := by
  refine ⟨?_, h.recalls.remember hpiece, fun other hknown => ?_, fun other hunknown => ?_,
    fun pair => ?_⟩
  · simp [h.asked, Replay.ask]
  · rcases Std.HashMap.mem_insert.1 hknown with heq | hbefore
    · obtain rfl : content = other := by simpa using heq
      simp
    · simp only [questions_append, List.append_assoc]
      exact (h.known other hbefore).trans (List.sublist_append_left ..)
  · have hother : ¬ (content = other ∨ other ∈ s.resolved) := fun hor =>
      hunknown (Std.HashMap.mem_insert.2 (by simpa using hor))
    obtain ⟨hne, hbefore⟩ := not_or.1 hother
    obtain ⟨hid, hbytes⟩ := h.unknown other hbefore
    simp [hid, hbytes, Ne.symm hne]
  · rw [pairs_append, pairs_append, pairs_ask, pairs_ask, List.append_nil, List.append_nil]
    exact h.seen pair

theorem Tells.place (h : s.Tells reader taken) (p : Piece) :
    Enacts reader (s.registry.follow reader taken [.register p])
      (s.place p.location p.id p.size) := by
  have hseen : s.seen.contains (p.location, p.id) = true ↔ p.pair ∈ pairs taken := by
    rw [Std.HashSet.contains_iff_mem, h.seen]
    rfl
  have hasked : questions (taken ++ [.register p]) = s.asked.reverse := by simp [h.asked]
  unfold Replay.place
  by_cases hp : p.pair ∈ pairs taken
  · rw [if_pos (hseen.2 hp), follow_needless (by simpa [Step.needless] using hp)]
    exact .finished h
  · rw [if_neg fun hand => hp (hseen.1 hand)]
    have hneed : Step.needless taken (.register p) = false := by simpa [Step.needless] using hp
    simp only
    rcases hcall : s.registry.register p.location p.id p.size with ⟨e | _, r'⟩
    · have htake : s.registry.takeStep reader (.register p) =
          (some (e.inReplay p.location), r') := by
        rw [Registry.takeStep, hcall]
      rw [follow_fails hneed htake]
      have hintroduced : Introduced (taken ++ [.register p]) := h.introduced.concat (by simp)
      cases e <;> exact .stopped (s := { s with registry := r', seen := _ }) hasked hintroduced _
    · have htake : s.registry.takeStep reader (.register p) = (none, r') := by
        rw [Registry.takeStep, hcall]
      rw [follow_succeeds hneed htake]
      refine .finished (s := { s with
        registry := r', seen := _, locations := _, entries := s.entries + 1 })
        ⟨hasked, h.recalls, ?_, ?_, fun pair => ?_⟩
      · simpa using h.known
      · simpa using h.unknown
      · rw [pairs_append]
        exact mem_insert_concat h.seen p.pair pair

/-- Content that has come up before is not asked about. -/
theorem Tells.bring_again (h : s.Tells reader taken) (location : String) {content : String}
    {known : String × UInt64} (hknown : s.resolved[content]? = some known) :
    Enacts reader (s.registry.follow reader taken (reader.contentPlan location content))
      (s.bring reader location content) := by
  have hmem : content ∈ s.resolved := by
    rw [Std.HashMap.mem_iff_isSome_getElem?, hknown]
    rfl
  have hasked : ∀ query ∈ [Query.identityOf content, .bytesOf content],
      query ∈ questions taken := fun query hquery => (h.known content hmem).subset hquery
  unfold Replay.bring Replay.resolve StateReader.contentPlan
  simp only [hknown, h.recalls content known hknown location, List.cons_append, List.nil_append]
  rw [follow_needless (by simp [Step.needless, Query.ofContent, hasked]),
    follow_needless (by simp [Step.needless, Query.ofContent, hasked])]
  exact h.place ⟨location, known.1, known.2⟩

/-- Content that has not is asked about, as far as there are answers. -/
theorem Tells.bring_first (h : s.Tells reader taken) (location : String) {content : String}
    (hunknown : s.resolved[content]? = none) :
    Enacts reader (s.registry.follow reader taken (reader.contentPlan location content))
      (s.bring reader location content) := by
  have hnew : content ∉ s.resolved := by
    rw [Std.HashMap.mem_iff_isSome_getElem?, hunknown]
    exact Bool.false_ne_true
  obtain ⟨hid, hbytes⟩ := h.unknown content hnew
  have hneedId : Step.needless taken (.ask (.identityOf content)) = false := by
    simp [Step.needless, hid]
  have hneedBytes : Step.needless (taken ++ [.ask (.identityOf content)])
      (.ask (.bytesOf content)) = false := by
    simp [Step.needless, hbytes]
  unfold Replay.bring Replay.resolve StateReader.contentPlan
  simp only [hunknown, List.cons_append, List.nil_append]
  cases hidentity : reader.identityOf content with
  | error e =>
    have hrefusal : reader.refusal? (.identityOf content) = some e := by
      rw [StateReader.refusal?, hidentity, reason?]
    rw [follow_fails hneedId (takeStep_ask _ hrefusal)]
    exact .stopped (s := s.ask _) (by simp [h.asked, Replay.ask])
      (h.introduced.concat (by simp)) e
  | ok id =>
    have hanswer : reader.refusal? (.identityOf content) = none := by
      rw [StateReader.refusal?, hidentity, reason?]
    rw [follow_succeeds hneedId (takeStep_ask _ hanswer)]
    simp only
    cases hsize : reader.bytesOf content with
    | error e =>
      have hrefusal : reader.refusal? (.bytesOf content) = some e := by
        rw [StateReader.refusal?, hsize, reason?]
      rw [follow_fails hneedBytes (takeStep_ask _ hrefusal)]
      exact .stopped (s := (s.ask _).ask _) (by simp [h.asked, Replay.ask])
        (h.introduced.pair content) e
    | ok size =>
      have hanswer : reader.refusal? (.bytesOf content) = none := by
        rw [StateReader.refusal?, hsize, reason?]
      have hpiece : ∀ location, reader.piece location content = .ok ⟨location, id, size⟩ := by
        intro location
        simp only [StateReader.piece, hidentity, hsize]
      rw [follow_succeeds hneedBytes (takeStep_ask _ hanswer), hpiece location]
      exact (h.resolve hpiece).place ⟨location, id, size⟩

theorem Tells.bring (h : s.Tells reader taken) (location content : String) :
    Enacts reader (s.registry.follow reader taken (reader.contentPlan location content))
      (s.bring reader location content) := by
  cases hknown : s.resolved[content]? with
  | some known => exact h.bring_again location hknown
  | none => exact h.bring_first location hknown

/-- The course tells what was asked, why it stopped and what it left. -/
theorem Enacts.reads {course : Course} {result : Except Failure Unit}
    (h : Enacts reader course (result, s)) :
    s.asked.reverse = questions course.steps ∧ reason? result = course.failure ∧
      s.registry = course.registry ∧ Introduced course.steps := by
  cases h with
  | finished tells => exact ⟨tells.asked.symm, rfl, rfl, tells.introduced⟩
  | stopped asked introduced e => exact ⟨asked.symm, rfl, rfl, introduced⟩

/-- Whatever takes steps that follow a plan each follows all the plans. -/
theorem Tells.inTurn {step : Replay → String → Except Failure Unit × Replay}
    {planned : String → List Step}
    (hstep : ∀ {s : Replay} {taken : List Step}, s.Tells reader taken → ∀ one,
      Enacts reader (s.registry.follow reader taken (planned one)) (step s one))
    (h : s.Tells reader taken) (all : List String) :
    Enacts reader (s.registry.follow reader taken (all.flatMap planned)) (s.inTurn step all) := by
  refine inTurn_matches (fun course => course.andThen_nil reader)
    (fun course => course.andThen_append reader) (fun hstopped plan => ?_) (fun hgoes one => ?_)
    (Enacts.finished h) all
  · cases hstopped with
    | stopped asked introduced => exact .stopped asked introduced _
  · cases hgoes with
    | finished tells => exact hstep tells one

section Ask
variable {query : Query} {plan : List Step}

/-- A question about servers that is answered is one step. -/
theorem follow_ask (hquery : query.ofContent = false) (hanswer : reader.refusal? query = none)
    (r : Registry) (taken : List Step) : r.follow reader taken (.ask query :: plan) =
      r.follow reader (taken ++ [.ask query]) plan :=
  follow_succeeds (by simp [Step.needless, hquery]) (takeStep_ask r hanswer)

/-- One that is not answered is the last. -/
theorem Tells.ask_fails (h : s.Tells reader taken) (hquery : query.ofContent = false)
    {e : Failure} (hrefusal : reader.refusal? query = some e) :
    Enacts reader (s.registry.follow reader taken (.ask query :: plan))
      (.error e, s.ask query) := by
  rw [follow_fails (by simp [Step.needless, hquery]) (takeStep_ask _ hrefusal)]
  exact .stopped (s := s.ask query) (h.ask hquery).asked (h.ask hquery).introduced e

end Ask

/-- One server. -/
theorem Tells.visit (h : s.Tells reader taken) (server : String) :
    Enacts reader (s.registry.follow reader taken (reader.serverPlan server))
      (s.visit (Replay.bring · reader) reader server) := by
  unfold Replay.visit StateReader.serverPlan
  simp only [List.cons_append, List.nil_append]
  cases hlocation : reader.locationOf server with
  | error e => exact h.ask_fails rfl (by rw [StateReader.refusal?, hlocation, reason?])
  | ok location =>
    have hfirst : reader.refusal? (.locationOf server) = none := by
      rw [StateReader.refusal?, hlocation, reason?]
    rw [follow_ask rfl hfirst]
    cases hcontent : reader.contentOf server with
    | error e => exact (h.ask rfl).ask_fails rfl (by rw [StateReader.refusal?, hcontent, reason?])
    | ok content =>
      have hsecond : reader.refusal? (.contentOf server) = none := by
        rw [StateReader.refusal?, hcontent, reason?]
      rw [follow_ask rfl hsecond]
      exact ((h.ask rfl).ask rfl).inTurn (fun h content => h.bring location content) content

end Enacts
end Replay

namespace Registry

open Replay (Introduced Taken follow_ask nodup_follow serverQuestions_follow serverQuestions_plan
  tells_start)

/-- A replay asks what the plan asks, fails where it fails and leaves the registry that it
leaves. -/
theorem replay_eq_follow (r : Registry) (reader : StateReader) :
    let course := r.follow reader [] reader.plan
    let replayed := r.replay reader
    replayed.queries = questions course.steps ∧ reason? replayed.result = course.failure ∧
      replayed.registry = course.registry ∧ Introduced course.steps := by
  have hstart := tells_start r reader
  simp only
  rw [r.replay_eq_replayBy]
  unfold replayBy StateReader.plan
  rw [List.cons_append, List.nil_append]
  cases hservers : reader.servers with
  | error e =>
    have hrefusal : reader.refusal? .servers = some e := by
      rw [StateReader.refusal?, hservers, reason?]
    exact (hstart.ask_fails rfl hrefusal).reads
  | ok servers =>
    have hanswer : reader.refusal? .servers = none := by
      rw [StateReader.refusal?, hservers, reason?]
    have hasked : ((Replay.start r).ask .servers).Tells reader [.ask .servers] := hstart.ask rfl
    have hall := hasked.inTurn (fun h server => h.visit server) servers
    rw [follow_ask rfl hanswer]
    simp only [Except.toOption, Option.getD_some]
    generalize Replay.inTurn _ _ servers = call at hall ⊢
    rcases call with ⟨e | _, s⟩ <;> exact hall.reads

/-- **What a replay asks about content, it asks once**, the size only where there is a functional
id, and each server's location and then its content as often as the server is listed, in that
order. Nothing is asked after a failure: the questions are those of steps none of which fails but
the last, and that as the replay does. Asking again for every piece would make no difference to
what comes of it. -/
theorem replay_asks_once (r : Registry) (reader : StateReader) :
    let replayed := r.replay reader
    let afresh := r.replayAfresh reader
    let course := r.follow reader [] reader.plan
    let queries := replayed.queries
    (queries.filter Query.ofContent).Nodup ∧
    (∀ content, .bytesOf content ∈ queries →
      [.identityOf content, .bytesOf content].Sublist queries ∧
        ∃ id, reader.identityOf content = .ok id) ∧
    (queries.filter fun query => !query.ofContent) <+:
      .servers :: (reader.servers.toOption.getD []).flatMap (fun server =>
        [.locationOf server, .contentOf server]) ∧
    (queries = questions course.steps ∧
      Taken reader r course.steps (reason? replayed.result) replayed.registry) ∧
    (∀ query later, [query, later].Sublist queries → reader.refusal? query = none) ∧
    replayed.result = afresh.result ∧ replayed.registry = afresh.registry := by
  intro replayed afresh course queries
  obtain ⟨hqueries, hfailure, hregistry, hintroduced⟩ :
      queries = questions course.steps ∧ reason? replayed.result = course.failure ∧
        replayed.registry = course.registry ∧ Introduced course.steps := r.replay_eq_follow reader
  obtain ⟨hresult, hleft⟩ :
      afresh.result = replayed.result ∧ afresh.registry = replayed.registry :=
    r.replayAfresh_eq reader
  have htaken : Taken reader r course.steps course.failure course.registry :=
    Taken.follow (.nil r) reader.plan
  rw [hqueries, hfailure, hregistry]
  refine ⟨nodup_follow r reader reader.plan, fun content hcontent => ?_, ?_, ⟨rfl, htaken⟩,
    fun query later hsub => htaken.answered hsub, hresult.symm, hregistry.symm.trans hleft.symm⟩
  · have hpair := hintroduced content hcontent
    refine ⟨hpair, ?_⟩
    have hanswer : reason? (reader.identityOf content) = none := htaken.answered hpair
    cases hidentity : reader.identityOf content with
    | ok id => exact ⟨id, rfl⟩
    | error e =>
      rw [hidentity] at hanswer
      cases hanswer
  · have hprefix := serverQuestions_follow r reader [] reader.plan
    rw [List.nil_append, serverQuestions_plan] at hprefix
    exact hprefix

end Registry
end EdgePlacement
