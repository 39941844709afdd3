import DynamicConfig.Cache.Write

/-!
# Reading a cache back

A cache document is read as any other: as the one inline source of a load, of the section the cache
is written under. What comes out says under the marker what it is. A fingerprint is compared with
what the sources hold now, where they resolve at all; anything else is a configuration, once the
marker is out of it.
-/

namespace DynamicConfig

/-- What a cache file is good for: `cache::Recovery`. -/
inductive Recovery where
  /-- A configuration to start from. -/
  | usable (values : Dict)
  /-- Only a fingerprint: what differs from the last good state, where that can be told. -/
  | drift (moved : Option (List String))
  /-- No cache on disk yet. -/
  | absent

/-! ### One value of a snapshot -/

/-- What figment hands to a `String`. -/
def Scalar.asString : Scalar → Option String
  | .string text => some text
  | .char character => some (String.singleton character)
  | _ => none

/-- An element of an array, as a `String`. -/
def Value.asString : Value → Option String
  | .scalar s => s.asString
  | _ => none

/-- A value that is no table, as a `String`. -/
def Leaf.asString : Leaf → Option String
  | .scalar s => s.asString
  | .array _ => none

/-- A value that is no table, as a `Vec<String>`. -/
def Leaf.asStrings : Leaf → Option (List String)
  | .scalar _ => none
  | .array items => items.mapM Value.asString

/-- `Snapshot::at`. -/
def Dict.valueAt (values : Dict) (path : String) : Option Node :=
  values.root.get (segments path)

/-- `Snapshot::contains`. -/
def Dict.contains (values : Dict) (path : String) : Bool :=
  (values.valueAt path).isSome

/-- `Snapshot::get`, into a type that reads no table. -/
def Dict.getAs {α : Type} (read : Leaf → Option α) (values : Dict) (path : String) : Option α :=
  (values.valueAt path).bind fun value ↦ value.peek.bind read

/-- What is read at a path is read off what the path shows. -/
theorem getAs_eq {α : Type} (read : Leaf → Option α) (values : Dict) (path : String) :
    values.getAs read path =
      (values.root.peekAt (segments path)).bind fun shown ↦ shown.bind read := by
  rw [Dict.getAs, Dict.valueAt, LabelledTree.peekAt, Option.bind_map]
  rfl

/-! ### What has moved since -/

/-- Which keys are gone, and which are new. -/
def movedKeys (before after : List String) : List String :=
  ((before.filter fun key ↦ !after.contains key).map (· ++ " is gone") ++
    (after.filter fun key ↦ !before.contains key).map (· ++ " is new")).mergeSort
      fun a b ↦ decide (a ≤ b)

/-- The report on a fingerprint whose configuration is the current one. -/
def nothingMoved : String :=
  "nothing moved — the sources match the last good configuration exactly"

/-- The report on a fingerprint whose keys are the current ones, and whose values are not. -/
def sameKeys : String :=
  "the same keys, with different values"

/-- Which keys have appeared or vanished since the cache was written: `drift`. Where the sources do
not resolve there is nothing to compare. -/
def drift (hash : Dict → String) (cached : Dict) (current : Option Dict) : Option (List String) :=
  current.map fun current ↦
    let moved := movedKeys ((cached.getAs Leaf.asStrings "keys").getD []) (leafPaths current)
    if moved = [] then
      if cached.getAs Leaf.asString "fingerprint" = some (hash current) then [nothingMoved]
      else [sameKeys]
    else moved

/-! ### Reading -/

/-- Whether a document is a fingerprint. A file written before the marker existed says so by a key
of that name. -/
def isFingerprint (cached : Dict) : Bool :=
  match cached.getAs Leaf.asString (marker ++ ".mode") with
  | some mode => decide (mode = "fingerprint")
  | none => cached.contains "fingerprint"

/-- The shared tail of the two readers: `parse_cache`. -/
def parseCache (Fig : Type) [Figment Fig] (hash : Dict → String) (host : Host) (text : String)
    (format : Format) (current : Option Dict) : Except Error Recovery := do
  let cached ← snapshot Fig host { key := cachedKey, sources := [.inline text format] }
  if isFingerprint cached then .ok (.drift (drift hash cached current))
  else .ok (.usable (Entries.erase marker cached))

/-- Reads whatever a path holds: `cache::read`. A file that is not there is no failure. -/
def readCache (Fig : Type) [Figment Fig] (hash : Dict → String) (host : Host)
    (contents : String → Except Error (Option String)) (path : String) (current : Option Dict) :
    Except Error Recovery := do
  let format ← formatOf path
  match ← contents path with
  | none => .ok .absent
  | some text => parseCache Fig hash host text format current

/-! ### The report -/

/-- Keys that are all there still have not moved. -/
theorem movedKeys_self (keys : List String) : movedKeys keys keys = [] := by
  have hnone : (keys.filter fun key ↦ !keys.contains key) = [] := by
    rw [List.filter_eq_nil_iff]
    intro key hkey
    rw [List.contains_iff_mem.2 hkey]
    exact Bool.false_ne_true
  rw [movedKeys, hnone, List.map_nil, List.map_nil, List.append_nil, List.mergeSort_nil]

end DynamicConfig
