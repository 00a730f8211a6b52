import TreeScript.Document.Decode
import TreeScript.Json.Encode
import TreeScript.Value.Export
import TreeScript.Yaml.Encode

/-!
# Encoding documents

Data as the text of a document, in a format that is given by name. A value is
converted to data first, and that breaks off where lists are nested too deep.
-/

namespace TreeScript

/-- A name that is no format. -/
structure EncodeFault where
  format : Option String
  deriving Repr, DecidableEq

def EncodeFault.message (f : EncodeFault) : String :=
  s!"Unsupported serialization format: {DecodeFault.shownName f.format}"

/-- Encodes data. Pretty JSON is spread over lines; YAML always is. -/
def encodeDocument (data : Data) (format : Option String) (pretty : Bool) : Except EncodeFault String :=
  match format.bind Format.ofName? with
  | some .json => .ok (Json.encode (if pretty then .indented else .oneLine) data)
  | some .yaml => .ok (Yaml.encode data)
  | none => .error ⟨format⟩

/-- Why a value cannot be written as a document. -/
inductive SerializeFault where
  | unsupported (fault : EncodeFault)
  /-- The stack of the host ended before the value did. -/
  | tooDeep
  deriving Repr, DecidableEq

/-- The text of a document for a value. -/
def Heap.serialize (h : Heap) (r : Ref) (format : Option String) (pretty : Bool)
    (depths : Depths := .standard) : Except SerializeFault String :=
  match h.toData? depths.exported r with
  | none => .error .tooDeep
  | some data =>
    if format.bind Format.ofName? = some .yaml ∧ depths.dumped < h.depth r then .error .tooDeep
    else (encodeDocument data format pretty).mapError .unsupported

end TreeScript
