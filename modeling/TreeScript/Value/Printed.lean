import TreeScript.Value.Display

/-!
# Printed values

The printed form of a value is for debugging: texts are quoted, instances show
their fields, and a list that is long or holds line breaks is spread over
lines, one item a line.

Fields may form cycles, and the host prints on its stack, so only a bounded
number of lists and instances inside each other is printed; a value that is
nested deeper has no printed form.
-/

namespace TreeScript

/-- The longest list that stays on one line. -/
def printedLineWidth : Nat := 72

def indentation (indent level : Nat) : String := String.ofList (List.replicate (indent * level) ' ')

/-- Quoting escapes quotes and backslashes and nothing else. -/
def quoteText (s : String) : String :=
  let escape (c : Char) : List Char := if c = '\\' ∨ c = '\'' then ['\\', c] else [c]
  String.ofList ('\'' :: s.toList.flatMap escape ++ ['\''])

/-- The layout of a list whose items are printed already. -/
def printList (indent level : Nat) (parts : List String) : String :=
  if parts.isEmpty then "[]"
  else
    let flat := "[" ++ String.intercalate ", " parts ++ "]"
    if flat.length ≤ printedLineWidth && !flat.toList.contains '\n' then flat
    else
      let lines := parts.map (indentation indent (level + 1) ++ ·)
      "[\n" ++ String.intercalate ",\n" lines ++ "\n" ++ indentation indent level ++ "]"

namespace Heap

/-- The printed form of a value at a level of nesting, if no more than so many lists and instances
are inside each other. -/
def print? (h : Heap) (indent : Nat) (nesting : Nat) (r : Ref) (level : Nat) : Option String :=
  match h.payload r with
  | .string s => some (quoteText s)
  | .list items =>
    if items.isEmpty then some "[]"
    else
      match nesting with
      | 0 => none
      | nesting + 1 => do
        let parts ← items.mapM fun i => h.print? indent nesting i (level + 1)
        return printList indent level parts
  | .function fn => do
    let bound ← match fn.self with
      | some self => (h.display? nesting self).map (" bound to " ++ ·)
      | none => some ""
    return s!"<function {fn.name}/{fn.params.length}{bound}>"
  | .overloads name fns => some s!"<function {name} ({fns.length} methods)>"
  | .instance c =>
    let fields := h.fields r
    if fields.isEmpty then some (h.display r)
    else
      match nesting with
      | 0 => none
      | nesting + 1 => do
        let parts ← fields.entries.mapM fun (name, value) =>
          (h.print? indent nesting value (level + 1)).map fun text => name ++ ": " ++ text
        return "<" ++ h.className c ++ " instance \x7b" ++ String.intercalate ", " parts ++ "\x7d>"
  | _ => h.display? nesting r

/-- The printed form in reports. -/
def printed? (h : Heap) (r : Ref) (nesting : Nat) : Option String :=
  h.print? 2 nesting r 0

end Heap

end TreeScript
