import TreeScript.Json.Decode
import TreeScript.Yaml.Decode

/-!
# Decoding documents

A document is JSON or YAML. Its format is given, or told by the suffix of its
path, or sniffed: a document that starts with a brace or a bracket is JSON.
-/

namespace TreeScript

inductive Format where
  | json
  | yaml
  deriving Repr, DecidableEq

namespace Format

def name : Format → String
  | json => "json"
  | yaml => "yaml"

/-- The format of a name, in any case. -/
def ofName? (s : String) : Option Format :=
  match String.ofList (s.toList.map Char.toLower) with
  | "json" => some json
  | "yaml" => some yaml
  | _ => none

def hasSuffix (s suffix : String) : Bool :=
  suffix.toList.isSuffixOf (s.toList.map Char.toLower)

def ofPath? (path : String) : Option Format :=
  if hasSuffix path ".json" then some json
  else if hasSuffix path ".yaml" || hasSuffix path ".yml" then some yaml
  else none

def sniff (text : String) : Format :=
  match Text.trimStart text.toList with
  | '\x7b' :: _ | '[' :: _ => json
  | _ => yaml

/-- The format that a path or else a text suggests. -/
def detect (path text : Option String) : Option Format :=
  (path.bind ofPath?).orElse fun _ => text.map sniff

end Format

/-- Why a document cannot be decoded. -/
inductive DecodeFault where
  | json (fault : Json.Fault)
  | yaml (fault : Yaml.Fault)
  | unsupported (format : Option String)
  deriving Repr, DecidableEq

namespace DecodeFault

def shownName (name : Option String) : String := (name.map Text.quoted).getD "None"

def message : DecodeFault → String
  | .json (.longInteger digits) => (Json.Fault.longInteger digits).message
  | .json .tooDeep => Json.Fault.tooDeep.message
  | .json fault => s!"invalid JSON document: {fault.message}"
  | .yaml .malformed => s!"invalid YAML document: {Yaml.Fault.malformed.message}"
  | .yaml fault => fault.message
  | .unsupported format => s!"Unsupported document format: {shownName format}"

end DecodeFault

/-- Reads a document. An empty format name counts as none given. -/
def readDocument (text : String) (format path : Option String) (depths : Depths := .standard) :
    Except DecodeFault Document :=
  let chosen := match format with
    | none | some "" => Format.detect path (some text)
    | some name => Format.ofName? name
  match chosen with
  | some .json => ((Json.decode text depths.json).map fun root => { root := root }).mapError .json
  | some .yaml => (Yaml.decode text depths.yaml).mapError .yaml
  | none => .error (.unsupported format)

theorem readDocument_json (text : String) (path : Option String) (depths : Depths) :
    readDocument text (some "json") path depths =
      ((Json.decode text depths.json).map fun root => { root := root }).mapError .json := rfl

/-- The data that a document decodes to. -/
def decodeDocument (text : String) (format path : Option String) (depths : Depths := .standard) :
    Except DecodeFault Data :=
  (readDocument text format path depths).map (·.root)

end TreeScript
