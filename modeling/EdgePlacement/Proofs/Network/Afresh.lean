import EdgePlacement.Proofs.Network.Loading

/-!
A replay that forgets.

It forgets what the reader has answered before each piece of content, and so asks about every one
as often as it comes up. All that a replay ever remembers is what the reader would answer again,
so it loads each piece as one that remembers does, and comes to the same end, with the same report
or failure and the same registry (`replayAfresh_eq`). -/
namespace EdgePlacement

namespace Replay

/-- Nothing is remembered of what the reader has answered. -/
def forget (s : Replay) : Replay := { s with resolved := ∅ }

/-- Replays the content of one server and asks about each piece whenever it comes up. -/
def serveAfresh (s : Replay) (reader : StateReader) (location : String) :
    List String → Except Failure Unit × Replay
  | [] => (.ok (), s)
  | content :: rest =>
    match s.forget.bring reader location content with
    | (.error e, s) => (.error e, s)
    | (.ok _, s) => s.serveAfresh reader location rest

/-- Replays servers in order and asks about each piece of content whenever it comes up. -/
def serveAllAfresh (s : Replay) (reader : StateReader) :
    List String → Except Failure Unit × Replay
  | [] => (.ok (), s)
  | server :: rest =>
    let s := s.ask (.locationOf server)
    match reader.locationOf server with
    | .error e => (.error e, s)
    | .ok location =>
      let s := s.ask (.contentOf server)
      match reader.contentOf server with
      | .error e => (.error e, s)
      | .ok content =>
        match s.serveAfresh reader location content with
        | (.error e, s) => (.error e, s)
        | (.ok _, s) => s.serveAllAfresh reader rest

/-! ### Only the way to deal with content differs -/

theorem serveAfresh_eq_inTurn (s : Replay) (reader : StateReader) (location : String)
    (content : List String) : s.serveAfresh reader location content =
      s.inTurn (fun s content => s.forget.bring reader location content) content :=
  eq_inTurn (serveAfresh · reader location ·) (fun _ => rfl) (fun _ _ _ => rfl) s content

theorem serveAllAfresh_eq_inTurn (s : Replay) (reader : StateReader) (servers : List String) :
    s.serveAllAfresh reader servers =
      s.inTurn (visit (fun s => s.forget.bring reader) · reader ·) servers := by
  refine eq_inTurn (serveAllAfresh · reader ·) (fun _ => rfl) (fun s first rest => ?_) s servers
  rw [serveAllAfresh, visit]
  cases reader.locationOf first with
  | error e => rfl
  | ok location =>
    cases reader.contentOf first with
    | error e => rfl
    | ok content => exact congrArg (goOn _) (serveAfresh_eq_inTurn ..)

/-- What has been forgotten is not remembered wrong. -/
theorem Remembers.forget {s : Replay} {reader : StateReader} {done : List Piece}
    (h : s.Remembers reader done) : s.forget.Remembers reader done where
  resolved content known hknown := by simp [Replay.forget] at hknown
  seen := h.seen
  locations := h.locations
  entries := h.entries

end Replay

/-- Registers all content a reader tells of, without memory of its answers. -/
def Registry.replayAfresh (registry : Registry) (reader : StateReader) : Replayed :=
  let s := (Replay.start registry).ask .servers
  match reader.servers with
  | .error e => ⟨.error e, s.registry, s.asked.reverse⟩
  | .ok servers =>
    match s.serveAllAfresh reader servers with
    | (.error e, s) => ⟨.error e, s.registry, s.asked.reverse⟩
    | (.ok _, s) =>
      ⟨.ok ⟨servers.length, s.entries, s.locations.size⟩, s.registry, s.asked.reverse⟩

theorem Registry.replayAfresh_eq_replayBy (r : Registry) (reader : StateReader) :
    r.replayAfresh reader = r.replayBy (fun s => s.forget.bring reader) reader := by
  unfold replayAfresh replayBy
  cases reader.servers with
  | error e => rfl
  | ok servers => exact congrArg (Replay.close servers) (Replay.serveAllAfresh_eq_inTurn ..)

/-- Forgetting makes no difference to what comes of a replay. -/
theorem Registry.replayAfresh_eq (r : Registry) (reader : StateReader) :
    (r.replayAfresh reader).result = (r.replay reader).result ∧
      (r.replayAfresh reader).registry = (r.replay reader).registry := by
  obtain ⟨hresult, hregistry⟩ := r.replay_eq_load reader
  rw [hresult, hregistry, r.replayAfresh_eq_replayBy]
  exact replayBy_eq_load (fun h location content => h.forget.bring location content) r

end EdgePlacement
