import EdgePlacement.Proofs.Network.Rounds
import EdgePlacement.Proofs.Network.Stock
import EdgePlacement.Proofs.Text.Bytes

/-!
Content that is listed and not described.

A document answers every question about a server that it lists. What it may have no answer to is
what a piece of content is, and that alone can stop a replay of it into an empty registry: the
first failure of the scan is the first content listed that is not described
(`NetworkState.failure?_reader`). It makes no difference how often content is listed, at how many
locations, or which functional ids there are (`replay_ok_iff_described`). -/
namespace EdgePlacement

namespace NetworkState
variable (state : NetworkState)

/-- All content that servers list, server by server. -/
def listed : List String := state.servers.toList.flatMap (·.2.content)

/-- The first content that is listed and not described. -/
def dangling? : Option String := state.listed.find? (· ∉ state.content)

theorem ordered_servers :
    state.servers.toList.Pairwise fun a b => Text.bytes a.1 < Text.bytes b.1 :=
  Std.TreeMap.ordered_keys_toList.imp fun hlt =>
    Text.lt_iff_bytes_lt.1 (Registry.compare_eq_lt_iff.1 hlt)

/-- There is a piece for content at a location exactly if the content is described. -/
theorem failureOf_piece (location content : String) :
    StateReader.failureOf (state.reader.piece location content) =
      if content ∈ state.content then none else some (.stateRead (.unknownContent content)) := by
  simp only [← Std.TreeMap.isSome_getElem?_iff_mem, StateReader.piece, reader, item]
  cases state.content[content]? <;> rfl

/-- What a server lists fails at the first content that is not described. -/
theorem findSome?_shelf (location : String) (content : List String) :
    (content.map (state.reader.piece location)).findSome? StateReader.failureOf =
      (content.find? (· ∉ state.content)).map fun content =>
        .stateRead (.unknownContent content) := by
  induction content with
  | nil => rfl
  | cons first rest ih =>
    rw [List.map_cons, List.findSome?_cons, failureOf_piece, List.find?_cons]
    by_cases hdescribed : first ∈ state.content
    · simpa [hdescribed] using ih
    · simp [hdescribed]

theorem failure?_reader : state.reader.failure? =
    state.dangling?.map fun content => .stateRead (.unknownContent content) := by
  rw [StateReader.failure?, scan_reader, dangling?, listed]
  induction state.servers.toList with
  | nil => rfl
  | cons entry rest ih =>
    rw [List.flatMap_cons, List.flatMap_cons, List.findSome?_append, List.find?_append,
      Option.map_or, ih]
    exact congrArg (Option.or · _) (state.findSome?_shelf entry.2.location entry.2.content)

end NetworkState

namespace Registry

/-- **A load fails for dangling content and for nothing else.** Take a registry that settings
have been accepted for, without cycles in the background, and load any document into it. The
servers are taken in ascending order of the bytes of their ids, each once, and the content of
each in its own order. The load succeeds exactly if all content listed is described. It fails
exactly where some is not, and then names the first content listed that is not described. -/
theorem replay_ok_iff_described {settings : Settings} {hasCoordinator : Bool} {r : Registry}
    (accepted : settings.registry hasCoordinator false = .ok r) (state : NetworkState) :
    let servers := state.servers.toList
    let listed := servers.flatMap fun (_, server) => server.content
    let result := (r.replay state.reader).result
    servers.Pairwise (fun a b => Text.bytes a.1 < Text.bytes b.1) ∧
    (∀ id server, (id, server) ∈ servers ↔ state.servers[id]? = some server) ∧
    ((∃ report, result = .ok report) ↔ ∀ content ∈ listed, content ∈ state.content) ∧
    ∀ e, result = .error e ↔ ∃ content,
      listed.find? (fun content => content ∉ state.content) = some content ∧
      e = .stateRead (.unknownContent content) ∧
      e.message = "State read failed: unknown content " ++ content := by
  intro servers listed result
  obtain ⟨keys, hcoherent⟩ := coherent_of_settings accepted
  obtain ⟨-, -, rfl⟩ := registry_eq_ok_iff.1 accepted
  refine ⟨state.ordered_servers, fun id server => Std.TreeMap.mem_toList_iff_getElem?_eq_some,
    ?_, fun e => ?_⟩
  · rw [hcoherent.replay_ok_iff (site_new _) (fun _ => ⟨_, rfl⟩) state.failsByState_reader,
      state.failure?_reader, Option.map_eq_none_iff, NetworkState.dangling?, List.find?_eq_none]
    simp only [decide_eq_true_eq, not_not]
    rfl
  · rw [hcoherent.replay_error_iff (site_new _) (fun _ => ⟨_, rfl⟩) state.failsByState_reader,
      state.failure?_reader, Option.map_eq_some_iff]
    constructor
    · rintro ⟨content, hcontent, rfl⟩
      exact ⟨content, hcontent, rfl, rfl⟩
    · rintro ⟨content, hcontent, rfl, -⟩
      exact ⟨content, hcontent, rfl⟩

/-- Content that is listed twice and two pieces of one functional id, which is the own id of one
of them, do not hide content that is not described. -/
theorem replay_dangling_behind_repeats :
    let settings := Settings.default
    let r : Registry := .new fun _ => .ok (settings.allocator false)
    let servers : List (String × Server) :=
      [("b", ⟨"eu", ["clip", "ghost"]⟩), ("a", ⟨"eu", ["film", "clip", "film"]⟩)]
    let content : List (String × Content) := [("film", ⟨10, none⟩), ("clip", ⟨20, some "film"⟩)]
    let state : NetworkState := ⟨.ofList servers, .ofList content⟩
    settings.registry false false = .ok r ∧
      (r.replay state.reader).result = .error (.stateRead (.unknownContent "ghost")) := by
  intro settings r servers content state
  have accepted : settings.registry false false = .ok r := rfl
  obtain ⟨-, -, -, herror⟩ := replay_ok_iff_described accepted state
  exact ⟨accepted, (herror _).2 ⟨"ghost", by decide +kernel, rfl, rfl⟩⟩

end Registry
end EdgePlacement
