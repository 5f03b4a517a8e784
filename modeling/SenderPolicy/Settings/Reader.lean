import SenderPolicy.Json
import SenderPolicy.Settings

/-!
# Reading settings

Settings are read from a JSON object with some of the fields, or from a list of
the fields in order that may end early. Fields that are absent keep their
standard value, and members with other names are passed over.

Main definitions:

- `Settings.Field`: the fields and their names;
- `Settings.set?`: one field given as a JSON value;
- `Settings.parse?`: reading a whole text.
-/

namespace SenderPolicy.Settings

/-- The fields of settings. -/
inductive Field where
  | maxLookups
  | maxVoidLookups
  | maxIncludeDepth
  | queryTimeout
  | evaluationTimeout
  /-- Whether records of type 99 are asked for. -/
  | asksType99
  | receiver
  deriving DecidableEq, Repr

namespace Field

/-- The fields in the order of a list of settings. -/
def all : List Field :=
  [.maxLookups, .maxVoidLookups, .maxIncludeDepth, .queryTimeout, .evaluationTimeout,
   .asksType99, .receiver]

/-- The name of a field. -/
def name : Field → String
  | .maxLookups => "max_lookups"
  | .maxVoidLookups => "max_void_lookups"
  | .maxIncludeDepth => "max_include_depth"
  | .queryTimeout => "dns_timeout"
  | .evaluationTimeout => "evaluation_timeout"
  | .asksType99 => "query_spf_rr"
  | .receiver => "host_domain"

/-- The field with the given name. -/
def ofName? (s : String) : Option Field := all.find? (·.name == s)

end Field

/-- The number that a JSON value stands for, if it is below the given bound. -/
def naturalBelow? (bound : Nat) : Json → Option Nat
  | .number (some n) => if n < bound then some n else none
  | _ => none

/-- Settings with one field given as a JSON value: limits have 32 bits and times
64, and the other two fields are a truth value and a string. -/
def set? (s : Settings) (field : Field) (value : Json) : Option Settings :=
  match field with
  | .maxLookups =>
    (naturalBelow? UInt32.size value).map fun n => { s with maxLookups := UInt32.ofNat n }
  | .maxVoidLookups =>
    (naturalBelow? UInt32.size value).map fun n => { s with maxVoidLookups := UInt32.ofNat n }
  | .maxIncludeDepth =>
    (naturalBelow? UInt32.size value).map fun n => { s with maxIncludeDepth := UInt32.ofNat n }
  | .queryTimeout => (naturalBelow? UInt64.size value).map fun n => { s with queryTimeout := n }
  | .evaluationTimeout =>
    (naturalBelow? UInt64.size value).map fun n => { s with evaluationTimeout := n }
  | .asksType99 =>
    match value with
    | .bool b => some { s with asksType99 := b }
    | _ => none
  | .receiver =>
    match value with
    | .string (some text) => some { s with receiver := String.ofList text }
    | _ => none

/-- Settings with the given members taken over, where the fields in `seen` may
not be given again. -/
def ofMembers? (s : Settings) (seen : List Field) :
    List (Option (List Char) × Json) → Option Settings
  | [] => some s
  | (none, _) :: _ => none
  | (some key, value) :: rest =>
    match Field.ofName? (String.ofList key) with
    | none => ofMembers? s seen rest
    | some field =>
      if field ∈ seen then none
      else match s.set? field value with
        | none => none
        | some s => ofMembers? s (field :: seen) rest

/-- Settings with the given values taken over for the given fields, in order.
There may not be more values than fields. -/
def ofItems? (s : Settings) : List Field → List Json → Option Settings
  | _, [] => some s
  | [], _ :: _ => none
  | field :: fields, value :: rest =>
    match s.set? field value with
    | none => none
    | some s => ofItems? s fields rest

/-- The settings that a JSON value stands for. -/
def ofJson? : Json → Option Settings
  | .object members => ofMembers? .standard [] members
  | .array items => ofItems? .standard Field.all items
  | _ => none

/-- Read settings from a JSON text. -/
def parse? (text : String) : Option Settings := (Json.parse? text).bind ofJson?

end SenderPolicy.Settings
