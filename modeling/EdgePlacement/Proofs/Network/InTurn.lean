import EdgePlacement.Network.Replay

/-!
A replay as two loops of one kind.

Servers are taken in turn, and so is the content of each, up to the first that fails. Both loops
are `inTurn`, which leaves open what is done for a piece of content, so that a replay which does
it in another way is the same but for that (`Registry.replayBy`). Whatever goes through a list of
its own beside such a loop, and matches it for one step, matches it to the end (`inTurn_matches`).
So whoever compares a replay with something looks at one piece of content and at one server. -/
namespace EdgePlacement

namespace Replay

/-! ### One after the other -/

/-- What comes next, unless something has failed. -/
def goOn (next : Replay → Except Failure Unit × Replay) :
    Except Failure Unit × Replay → Except Failure Unit × Replay
  | (.error e, s) => (.error e, s)
  | (.ok _, s) => next s

/-- Takes a step for each in turn, up to the first that fails. -/
def inTurn (step : Replay → String → Except Failure Unit × Replay) (s : Replay) :
    List String → Except Failure Unit × Replay
  | [] => (.ok (), s)
  | first :: rest => goOn (fun s => s.inTurn step rest) (step s first)

section InTurn
variable {step : Replay → String → Except Failure Unit × Replay}

/-- A loop that takes the same steps. -/
theorem eq_inTurn (loop : Replay → List String → Except Failure Unit × Replay)
    (hnil : ∀ s, loop s [] = (.ok (), s))
    (hcons : ∀ s first rest, loop s (first :: rest) = goOn (loop · rest) (step s first))
    (s : Replay) (all : List String) : loop s all = s.inTurn step all := by
  induction all generalizing s with
  | nil => exact hnil s
  | cons first rest ih =>
    rw [hcons, inTurn]
    rcases step s first with ⟨e | _, s'⟩
    · rfl
    · exact ih s'

/-- Let `go` take a list as it takes its parts one after the other. If it keeps to a relation to
outcomes, over what is listed for one step while that step is taken, and over anything once a
step has failed, then it keeps to it through all steps. -/
theorem inTurn_matches {α β : Type} {go : α → List β → α} (hnil : ∀ x, go x [] = x)
    (happend : ∀ x listed later, go x (listed ++ later) = go (go x listed) later)
    {R : α → Except Failure Unit × Replay → Prop}
    (hstopped : ∀ {x e s}, R x (.error e, s) → ∀ listed, R (go x listed) (.error e, s))
    {listed : String → List β}
    (hstep : ∀ {x s}, R x (.ok (), s) → ∀ one, R (go x (listed one)) (step s one))
    {x : α} {s : Replay} (h : R x (.ok (), s)) (all : List String) :
    R (go x (all.flatMap listed)) (s.inTurn step all) := by
  induction all generalizing x s with
  | nil =>
    rw [List.flatMap_nil, hnil]
    exact h
  | cons first rest ih =>
    rw [List.flatMap_cons, happend, inTurn]
    have hfirst := hstep h first
    rcases hx : step s first with ⟨e | _, s'⟩
    · rw [hx] at hfirst
      exact hstopped hfirst _
    · rw [hx] at hfirst
      exact ih hfirst

end InTurn

/-! ### Content and servers -/

/-- Deals with one piece of content. -/
def bring (s : Replay) (reader : StateReader) (location content : String) :
    Except Failure Unit × Replay :=
  match s.resolve reader content with
  | (.error e, s) => (.error e, s)
  | (.ok (id, size), s) => s.place location id size

section Visit
variable (bring : Replay → String → String → Except Failure Unit × Replay)

/-- Deals with one server, whose content is brought to its location. -/
def visit (s : Replay) (reader : StateReader) (server : String) : Except Failure Unit × Replay :=
  let s := s.ask (.locationOf server)
  match reader.locationOf server with
  | .error e => (.error e, s)
  | .ok location =>
    let s := s.ask (.contentOf server)
    match reader.contentOf server with
    | .error e => (.error e, s)
    | .ok content => s.inTurn (bring · location ·) content

end Visit

theorem serve_eq_inTurn (s : Replay) (reader : StateReader) (location : String)
    (content : List String) :
    s.serve reader location content = s.inTurn (bring · reader location ·) content := by
  refine eq_inTurn (serve · reader location ·) (fun _ => rfl) (fun s first rest => ?_) s content
  rw [serve, bring]
  rcases s.resolve reader first with ⟨e | ⟨id, size⟩, s⟩ <;> rfl

theorem serveAll_eq_inTurn (s : Replay) (reader : StateReader) (servers : List String) :
    s.serveAll reader servers = s.inTurn (visit (bring · reader) · reader ·) servers := by
  refine eq_inTurn (serveAll · reader ·) (fun _ => rfl) (fun s first rest => ?_) s servers
  rw [serveAll, visit]
  cases reader.locationOf first with
  | error e => rfl
  | ok location =>
    cases reader.contentOf first with
    | error e => rfl
    | ok content => exact congrArg (goOn _) (serve_eq_inTurn ..)

end Replay

/-- The outcome of a replay that has ended, of the servers listed. -/
def Replay.close (servers : List String) : Except Failure Unit × Replay → Replayed
  | (.error e, s) => ⟨.error e, s.registry, s.asked.reverse⟩
  | (.ok _, s) => ⟨.ok ⟨servers.length, s.entries, s.locations.size⟩, s.registry, s.asked.reverse⟩

/-- A replay that brings content to locations in the given way. -/
def Registry.replayBy (bring : Replay → String → String → Except Failure Unit × Replay)
    (registry : Registry) (reader : StateReader) : Replayed :=
  let s := (Replay.start registry).ask .servers
  match reader.servers with
  | .error e => ⟨.error e, s.registry, s.asked.reverse⟩
  | .ok servers => Replay.close servers (s.inTurn (Replay.visit bring · reader ·) servers)

theorem Registry.replay_eq_replayBy (r : Registry) (reader : StateReader) :
    r.replay reader = r.replayBy (Replay.bring · reader) reader := by
  unfold replay replayBy
  cases reader.servers with
  | error e => rfl
  | ok servers => exact congrArg (Replay.close servers) (Replay.serveAll_eq_inTurn ..)

end EdgePlacement
