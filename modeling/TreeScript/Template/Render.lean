import TreeScript.Bindings
import TreeScript.Data.Written
import TreeScript.Template.Parse

/-!
# Rendering templates

A template is filled from a table of texts. A section is rendered once if its
text is not empty, an inverted section if it is; inside a section a lone point
stands for that text, and outside for the whole table. Names with points in
them lead nowhere. Text that is filled in is never expanded again.
-/

namespace TreeScript.Template

/-- What a lone point stands for. -/
inductive Focus where
  | table
  | text (value : String)
  deriving Repr, DecidableEq

inductive RenderFault where
  | missing (key : String)
  | noSuchTemplate (key : String)
  deriving Repr, DecidableEq

def resolve? (table : Bindings String) (focus : Focus) (key : String) : Option Focus :=
  if key = "." then some focus
  else if key.toList.contains '.' then none
  else (table.get? key).map .text

def Focus.truthy (table : Bindings String) : Focus → Bool
  | .table => !table.isEmpty
  | .text s => s != ""

def tableText (table : Bindings String) : String :=
  (Data.mapping (table.entries.map fun (k, v) => (.text k, .text v))).written

def Focus.shown (table : Bindings String) : Focus → String
  | .table => tableText table
  | .text s => s

mutual

def render (table : Bindings String) (focus : Focus) : Node → Except RenderFault String
  | .literal text => .ok text
  | .variable key =>
    match resolve? table focus key with
    | some found => .ok (found.shown table)
    | none => .error (.missing key)
  | .whenSet key body =>
    match resolve? table focus key with
    | some found => if found.truthy table then renderAll table found body else .ok ""
    | none => .error (.missing key)
  | .whenEmpty key body =>
    match resolve? table focus key with
    | some found => if found.truthy table then .ok "" else renderAll table focus body
    | none => .error (.missing key)
  | .inclusion key => .error (.noSuchTemplate key)

def renderAll (table : Bindings String) (focus : Focus) : List Node → Except RenderFault String
  | [] => .ok ""
  | node :: rest => do
    let first ← render table focus node
    let others ← renderAll table focus rest
    pure (first ++ others)

end

inductive Fault where
  | parse (fault : ParseFault)
  | render (fault : RenderFault)
  deriving Repr, DecidableEq

/-- Fills a template from a table. A template is read to its end before anything is filled in. -/
def fill (template : String) (table : Bindings String) : Except Fault String :=
  match parse template with
  | .error fault => .error (.parse fault)
  | .ok nodes => (renderAll table .table nodes).mapError .render

end TreeScript.Template
