import EdgePlacement.File
import EdgePlacement.Json.Shape
import Std.Data.HashMap

/-!
Rankings: what content matters most, as a coordinator sees it.

A ranking gives ids a priority, the higher the sooner. Rankings are kept under keys, and a
coordinator answers a key with a ranking or with the reason why it has none; a key nothing
is known of has the empty ranking. The rankings are in memory or in a JSON document
`key ↦ id ↦ priority`, which has to be of that form throughout, also under other keys. -/
namespace EdgePlacement

abbrev Ranking := Std.HashMap String Int

/-- The priority of an id; unranked content counts as 0. -/
def Ranking.priority (ranking : Ranking) (id : String) : Int := ranking.getD id 0

/-- Rankings by key. -/
abbrev Rankings := Std.HashMap String Ranking

namespace Rankings

def under (rankings : Rankings) (key : String) : Ranking := rankings.getD key ∅

/-- Gives one id a priority under a key. -/
def rank (rankings : Rankings) (key id : String) (priority : Int) : Rankings :=
  rankings.insert key ((rankings.under key).insert id priority)

/-- The rankings of a JSON value; of a repeated key the last value counts. -/
def ofJson? (json : Json) : Option Rankings :=
  (json.members? (Json.members? Json.integer?)).map fun keyed =>
    Std.HashMap.ofList (keyed.map fun (key, ranking) => (key, Std.HashMap.ofList ranking))

end Rankings

/-- What a key is answered with. -/
abbrev Coordinator := String → Except Failure Ranking

namespace Coordinator

def ofRankings (rankings : Rankings) : Coordinator := fun key => .ok (rankings.under key)

/-- Reads the document found under a path. -/
def ofFile (path : String) (file : File) : Coordinator := fun key =>
  match file.text with
  | .error _ => .error (.fetch (.unreadable path))
  | .ok text =>
    match (Json.ofText? text).bind Rankings.ofJson? with
    | none => .error (.fetch (.undecodable path))
    | some rankings => .ok (rankings.under key)

/-- Answers no key. -/
def refusing (reason : String) : Coordinator := fun _ => .error (.fetch (.refused reason))

end Coordinator
end EdgePlacement
