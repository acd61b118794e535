import EntityMapping.Json.Skipper
import EntityMapping.Registry

/-! # Settings as JSON text

Settings are written as an object of named settings or as an array of them in their order. A setting
that is not written has its default, and what stands under a name that is no setting is passed over.
-/

namespace EntityMapping.Config

def refuse {α : Type} (reason : String) : Except Error α := .error (.serialization reason)

def readLimit : Json → Except Error (Option Nat)
  | .null => .ok none
  | .int n => if 0 ≤ n ∧ n.toNat < twoTo 64 then .ok (some n.toNat) else refuse "limit out of range"
  | _ => refuse "limit is no number"

def readFlag : Json → Except Error Bool
  | .bool b => .ok b
  | _ => refuse "flag is neither true nor false"

/-- Reads one named setting. Names that are not known are passed over. -/
def readMember (c : Config) (name : String) (v : Json) : Except Error Config :=
  if name = "wave_limit" then (readLimit v).map fun limit => { c with waveLimit := limit }
  else if name = "cache_destinations" then
    (readFlag v).map fun flag => { c with cacheDestinations := flag }
  else .ok c

def settingNames : List String := ["wave_limit", "cache_destinations"]

def written (members : List (String × Json)) : Bool :=
  settingNames.all fun name => members.countP (·.1 = name) ≤ 1

def ofJson : Json → Except Error Config
  | .object members =>
    if written members then members.foldlM (fun c m => c.readMember m.1 m.2) {}
    else refuse "setting written twice"
  | .array items =>
    if items.length ≤ settingNames.length then
      (settingNames.zip items).foldlM (fun c m => c.readMember m.1 m.2) {}
    else refuse "more items than settings"
  | _ => refuse "neither an object nor an array"

/-- The value under a name in front. Under a name that is no setting it counts as null. -/
def readNamed? (name : String) (s : List Char) : Option (Json × List Char) :=
  if name ∈ settingNames then Json.readValue? 127 s
  else (Json.skipValue? s).map fun rest => (.null, rest)

def readSettings? : List Char → Option (Json × List Char)
  | '\x7b' :: s =>
    (Json.readSeriesOrNone? (Json.readMember? readNamed?) '\x7d' s).map
      fun (members, rest) => (.object members, rest)
  | s => Json.readValue? 128 s

def parse (text : String) : Except Error Config :=
  match Json.readWhole? readSettings? text with
  | some v => ofJson v
  | none => refuse "no JSON text"

end EntityMapping.Config
