import EdgePlacement.Proofs.Network.Scan

/-!
What a document says there is at a location.

The content at a location is what its servers list, server by server, and its stock gives every
functional id the size of the first content that carries it. Where an empty registry has been
loaded from a document, the allocator of a location tracks the stock, and there is an allocator
exactly where some content is listed (`Coherent.stocked`). -/
namespace EdgePlacement

namespace NetworkState
variable (state : NetworkState)

/-- The content that servers of a location list, in the order of the servers. -/
def contentAt (location : String) : List String :=
  (state.servers.toList.filter (·.2.location = location)).flatMap (·.2.content)

/-- The functional id of a piece of content that the document describes. -/
def identity? (content : String) : Option String :=
  state.content[content]?.map fun item => item.identity.getD content

/-- The size of the first content at a location that carries a functional id. -/
def stock (location : String) : Tracked := fun id =>
  ((state.contentAt location).find? (state.identity? · = some id)).bind fun content =>
    state.content[content]?.map (·.size)

/-- Some server of the location lists content that carries the functional id. -/
def Lists (location id : String) : Prop :=
  ∃ (name : String) (server : Server) (content : String), state.servers[name]? = some server ∧
    server.location = location ∧ content ∈ server.content ∧ state.identity? content = some id

variable {state} {location id : String}

theorem mem_contentAt_iff {content : String} : content ∈ state.contentAt location ↔
    ∃ (name : String) (server : Server), state.servers[name]? = some server ∧
      server.location = location ∧ content ∈ server.content := by
  simp only [contentAt, List.mem_flatMap, List.mem_filter, Prod.exists,
    Std.TreeMap.mem_toList_iff_getElem?_eq_some, decide_eq_true_eq, and_assoc]

/-- What is in stock is listed. -/
theorem lists_of_stock (h : (state.stock location id).isSome = true) :
    state.Lists location id := by
  obtain ⟨size, hsize⟩ := Option.isSome_iff_exists.1 h
  obtain ⟨content, hfind, -⟩ := Option.bind_eq_some_iff.1 hsize
  obtain ⟨name, server, hserver, hlocation, hmem⟩ :=
    mem_contentAt_iff.1 (List.mem_of_find?_eq_some hfind)
  exact ⟨name, server, content, hserver, hlocation, hmem, by simpa using List.find?_some hfind⟩

theorem stock_eq_none (h : state.contentAt location = []) (id : String) :
    state.stock location id = none := by
  unfold stock
  rw [h]
  rfl

/-- The stock of a single piece of content. -/
theorem stock_single {content : String} {item : Content} (hlisted : state.contentAt location =
      [content]) (hitem : state.content[content]? = some item) :
    state.stock location = Tracked.none.set (item.identity.getD content) (some item.size) := by
  funext id
  have hidentity : state.identity? content = some (item.identity.getD content) := by
    rw [identity?, hitem, Option.map_some]
  unfold stock
  rw [hlisted]
  by_cases hid : id = item.identity.getD content
  · rw [List.find?_cons_of_pos (by simp [hidentity, hid]), Option.bind_some, hitem, hid,
      Tracked.set_self]
    rfl
  · rw [List.find?_cons_of_neg (by simpa [hidentity] using Ne.symm hid), Tracked.set_of_ne _ _ hid]
    rfl

/-! ### Scans of documents -/

theorem failsByState_reader (state : NetworkState) : state.reader.FailsByState := by
  have hserver : ∀ {α : Type} (f : Server → α) id e, (state.server id).map f = .error e →
      ∃ fault, e = .stateRead fault := by
    intro α f id e he
    unfold server at he
    split at he
    · cases he
    · cases he
      exact ⟨_, rfl⟩
  have hitem : ∀ {α : Type} (f : Content → α) id e, (state.item id).map f = .error e →
      ∃ fault, e = .stateRead fault := by
    intro α f id e he
    unfold item at he
    split at he
    · cases he
    · cases he
      exact ⟨_, rfl⟩
  exact ⟨(fun e he => by cases he), hserver _, hserver _, fun id => hitem _ id, hitem _⟩

/-- A piece of content at a location, if the document describes it. -/
def piece? (state : NetworkState) (location content : String) : Option Piece :=
  state.content[content]?.map fun item => ⟨location, item.identity.getD content, item.size⟩

theorem toOption_piece (state : NetworkState) (location content : String) :
    (state.reader.piece location content).toOption = state.piece? location content := by
  simp only [StateReader.piece, reader, item, piece?]
  cases state.content[content]? <;> rfl

theorem scan_reader (state : NetworkState) : state.reader.scan =
    state.servers.toList.flatMap fun (_, server) =>
      server.content.map (state.reader.piece server.location) := by
  show state.servers.keys.flatMap state.reader.shelf = _
  rw [← Std.TreeMap.map_fst_toList_eq_keys, List.flatMap_map]
  refine List.flatMap_congr fun entry hentry => ?_
  have hserver : state.servers[entry.1]? = some entry.2 :=
    Std.TreeMap.mem_toList_iff_getElem?_eq_some.1 hentry
  simp only [StateReader.shelf, reader, server, hserver, Except.map]

section Scan
variable {pieces : List Piece} (hscan : state.reader.scan = pieces.map .ok)
include hscan

/-- The pieces of a scan without failures. -/
theorem pieces_eq : pieces = state.servers.toList.flatMap fun (_, server) =>
    server.content.filterMap (state.piece? server.location) := by
  have hpieces : (pieces.map (.ok : Piece → Except Failure Piece)).filterMap Except.toOption =
      pieces := by
    rw [List.filterMap_map]
    exact List.filterMap_some
  rw [← hpieces, ← hscan, scan_reader, List.filterMap_flatMap]
  simp only [List.filterMap_map, Function.comp_def, toOption_piece]

/-- Those at one location. -/
theorem filter_pieces (location : String) : pieces.filter (·.location = location) =
    (state.contentAt location).filterMap (state.piece? location) := by
  have hserver : ∀ server : Server,
      (server.content.filterMap (state.piece? server.location)).filter (·.location = location) =
        if server.location = location then server.content.filterMap (state.piece? location)
        else [] := fun server => by
    have hlocation : ∀ p ∈ server.content.filterMap (state.piece? server.location),
        p.location = server.location := fun p hp => by
      obtain ⟨content, -, hpiece⟩ := List.mem_filterMap.1 hp
      obtain ⟨item, -, rfl⟩ := Option.map_eq_some_iff.1 hpiece
      rfl
    split
    · next heq =>
      rw [heq] at hlocation ⊢
      exact List.filter_eq_self.2 fun p hp => decide_eq_true (hlocation p hp)
    · next hne =>
      exact List.filter_eq_nil_iff.2 fun p hp => by simpa [hlocation p hp] using hne
  rw [pieces_eq hscan, List.filter_flatMap, contentAt, List.filterMap_flatMap]
  simp only [hserver]
  induction state.servers.toList with
  | nil => rfl
  | cons entry rest ih =>
    rw [List.flatMap_cons, ih, List.filter_cons]
    split <;> simp [*]

/-- All content listed is described. -/
theorem isSome_content {location content : String} (h : content ∈ state.contentAt location) :
    (state.content[content]?).isSome = true := by
  obtain ⟨name, server, hserver, -, hmem⟩ := mem_contentAt_iff.1 h
  have hpiece : state.reader.piece server.location content ∈ state.reader.scan := by
    rw [scan_reader]
    exact List.mem_flatMap.2 ⟨_, Std.TreeMap.mem_toList_iff_getElem?_eq_some.2 hserver,
      List.mem_map_of_mem hmem⟩
  rw [hscan] at hpiece
  obtain ⟨p, -, hp⟩ := List.mem_map.1 hpiece
  have hoption := state.toOption_piece server.location content
  rw [← hp] at hoption
  rw [← Option.isSome_map, ← piece?, ← hoption]
  rfl

/-- The pieces have the sizes that are in stock. -/
theorem size?_pieces (location id : String) :
    Piece.size? pieces location id = state.stock location id := by
  have hpair : (pieces.find? fun p => p.pair = (location, id)) =
      (pieces.filter (·.location = location)).find? (·.id = id) := by
    rw [List.find?_filter]
    congr 1
    funext p
    simp [Piece.pair]
  have hidentity : ∀ content, ((state.piece? location content).any (·.id = id)) =
      decide (state.identity? content = some id) := fun content => by
    unfold piece? identity?
    cases state.content[content]? <;> simp
  unfold Piece.size? stock
  rw [hpair, filter_pieces hscan, List.find?_filterMap, Option.map_bind]
  simp only [hidentity]
  congr 1
  funext content
  simp only [Function.comp_apply, piece?, Option.map_map]
  rfl

/-- Where content is listed, something is in stock. -/
theorem exists_stock {location : String} (h : state.contentAt location ≠ []) :
    ∃ id, (state.stock location id).isSome = true := by
  obtain ⟨content, hcontent⟩ := List.exists_mem_of_ne_nil _ h
  obtain ⟨item, hitem⟩ := Option.isSome_iff_exists.1 (isSome_content hscan hcontent)
  refine ⟨item.identity.getD content, ?_⟩
  have hfind : ((state.contentAt location).find?
      (state.identity? · = some (item.identity.getD content))).isSome = true :=
    List.find?_isSome.2 ⟨content, hcontent, by simp [identity?, hitem]⟩
  obtain ⟨first, hfirst⟩ := Option.isSome_iff_exists.1 hfind
  unfold stock
  rw [hfirst, Option.bind_some, Option.isSome_map]
  exact isSome_content hscan (List.mem_of_find?_eq_some hfirst)

end Scan
end NetworkState

namespace StateReader

/-! ### The first failure of a scan -/

/-- Why there is no piece. -/
def failureOf : Except Failure Piece → Option Failure
  | .ok _ => none
  | .error e => some e

/-- Why the first question of a scan that has no answer has none. -/
def failure? (reader : StateReader) : Option Failure := reader.scan.findSome? failureOf

theorem findSome?_pieces (pieces : List Piece) :
    (pieces.map .ok).findSome? failureOf = none := by
  rw [List.findSome?_map]
  exact List.findSome?_eq_none_iff.2 fun _ _ => rfl

theorem failure?_of_pieces {reader : StateReader} {pieces : List Piece}
    (hscan : reader.scan = pieces.map .ok) : reader.failure? = none := by
  rw [failure?, hscan]
  exact findSome?_pieces pieces

end StateReader

namespace Registry

section Replay
variable {keys : String → String} {r : Registry}

section Empty
variable (h : r.Coherent keys) (hempty : ∀ location, r.site location = none)
  (hmakes : ∀ location, ∃ a, r.factory location = .ok a) {reader : StateReader}
  (hreader : reader.FailsByState)
include h hempty hmakes hreader

/-- An empty registry has nothing to stop a replay. So it ends at the first question without an
answer, if there is one. -/
theorem Coherent.replay_empty :
    (∃ report, (r.replay reader).result = .ok report ∧ reader.failure? = none) ∨
      ∃ e, (r.replay reader).result = .error e ∧ reader.failure? = some e := by
  rcases h.replay_cases hreader with
    ⟨_, pieces, -, hscan, hok, -, -⟩ | ⟨e, done, failing, rest, herror, hscan, -, hstops⟩
  · exact .inl ⟨_, hok, StateReader.failure?_of_pieces hscan⟩
  · cases hstops with
    | unanswered fault =>
      refine .inr ⟨_, herror, ?_⟩
      rw [StateReader.failure?, hscan, List.findSome?_append, StateReader.findSome?_pieces]
      rfl
    | registered p present =>
      rw [bytes?_eq, hempty] at present
      cases present
    | refused p fault absent unplaced made =>
      obtain ⟨a, ha⟩ := hmakes p.location
      cases ha.symm.trans made

theorem Coherent.replay_ok_iff :
    (∃ report, (r.replay reader).result = .ok report) ↔ reader.failure? = none := by
  rcases h.replay_empty hempty hmakes hreader with ⟨report, hok, hnone⟩ | ⟨e, herror, hsome⟩
  · exact iff_of_true ⟨report, hok⟩ hnone
  · rw [herror, hsome]
    exact iff_of_false (fun ⟨_, hok⟩ => nomatch hok) (fun hnone => nomatch hnone)

theorem Coherent.replay_error_iff {e : Failure} :
    (r.replay reader).result = .error e ↔ reader.failure? = some e := by
  rcases h.replay_empty hempty hmakes hreader with ⟨report, hok, hnone⟩ | ⟨e', herror, hsome⟩
  · rw [hok, hnone]
    exact iff_of_false (fun herror => nomatch herror) (fun hsome => nomatch hsome)
  · rw [herror, hsome, Except.error.injEq, Option.some.injEq]

end Empty

/-- Nothing keeps an empty registry from loading a scan without failures. -/
theorem Coherent.replay_ok (h : r.Coherent keys) (hempty : ∀ location, r.site location = none)
    (hmakes : ∀ location, ∃ a, r.factory location = .ok a) {reader : StateReader}
    (hreader : reader.FailsByState) {pieces : List Piece} (hscan : reader.scan = pieces.map .ok) :
    ∃ report, (r.replay reader).result = .ok report :=
  (h.replay_ok_iff hempty hmakes hreader).2 (StateReader.failure?_of_pieces hscan)

/-- **A registry loaded from a document has its stock.** -/
theorem Coherent.stocked (h : r.Coherent keys) (hempty : ∀ location, r.site location = none)
    {state : NetworkState} {report : Report}
    (hok : (r.replay state.reader).result = .ok report) (location : String) :
    (state.contentAt location = [] →
      (r.replay state.reader).registry.slots[location]? = none) ∧
    (state.contentAt location ≠ [] →
      ∃ slot, (r.replay state.reader).registry.slots[location]? = some slot ∧
        slot.allocator.Tracks (keys location) (state.stock location)) := by
  obtain ⟨pieces, hscan, hcoherent, hloads⟩ : ∃ pieces, state.reader.scan = pieces.map .ok ∧
      (r.replay state.reader).registry.Coherent keys ∧
        r.Loads pieces (r.replay state.reader).registry := by
    rcases h.replay_cases state.failsByState_reader with
      ⟨-, pieces, -, hscan, -, hcoherent, hloads⟩ | ⟨e, -, -, -, herror, -, -, -⟩
    · exact ⟨pieces, hscan, hcoherent, hloads⟩
    · cases hok.symm.trans herror
  generalize (r.replay state.reader).registry = r' at hcoherent hloads ⊢
  have hbytes : ∀ id, (r'.site location).bytes? id = state.stock location id := fun id => by
    rw [← r'.bytes?_eq, hloads.bytes?, NetworkState.size?_pieces hscan, bytes?_eq, hempty]
    exact Option.or_none
  obtain ⟨ids, hids⟩ := hcoherent.holds location
  cases hslot : r'.slots[location]? with
  | none =>
    rw [site_of_none hslot] at hbytes
    refine ⟨fun _ => rfl, fun hlisted => ?_⟩
    obtain ⟨id, hid⟩ := NetworkState.exists_stock hscan hlisted
    rw [← hbytes id] at hid
    cases hid
  | some slot =>
    rw [site_of_some hslot] at hbytes hids
    generalize slot.live = live at hbytes hids
    cases hids with
    | live nonempty keeps =>
      refine ⟨fun hnothing => ?_, fun _ => ⟨slot, rfl, ?_⟩⟩
      · obtain ⟨id, hid⟩ := nonempty
        have hsome := (keeps.isSome_bytes?_iff id).2 hid
        rw [show slot.allocator.bytes? id = _ from hbytes id,
          NetworkState.stock_eq_none hnothing] at hsome
        cases hsome
      · obtain ⟨t, ht, -⟩ := keeps
        have hstock : t = state.stock location := funext fun id =>
          (ht.bytes?_eq id).symm.trans (hbytes id)
        exact hstock ▸ ht

end Replay
end Registry
end EdgePlacement
