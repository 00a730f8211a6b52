import TreeScript.Bindings

/-!
# Scopes

A frame is one lexical scope: a diagnostic name, a link to the frame that
lexically encloses it, and bindings. Frames live in one growing store and are
shared: a closure keeps the frame it was made in, and every call hangs a new
frame below it. A scope is such a store with a movable head, the innermost
frame of the active chain, and a global frame, which is consulted last even
when the active chain does not end in it.

A frame is always younger than its parent, so a chain is finite.
-/

namespace TreeScript

/-- The place of a frame in the store; younger frames have larger places. -/
abbrev FrameId := Nat

structure Frame (α : Type) where
  name : String
  parent : Option FrameId := none
  bindings : Bindings α := .empty
  deriving Repr, Inhabited

structure Scope (α : Type) where
  frames : Array (Frame α)
  globals : FrameId
  head : FrameId
  globals_lt : globals < frames.size := by simp
  deriving Repr

/-- Closing a frame that has nothing below it is a mistake of the caller; the
top frame is named. -/
structure EmptyStack where
  top : String
  deriving Repr, DecidableEq

namespace Scope

variable {α : Type}

/-- A scope with the global frame alone, which is also the head. -/
def withGlobals (name : String) : Scope α := { frames := #[{ name }], globals := 0, head := 0 }

instance : Inhabited (Scope α) := ⟨withGlobals ""⟩

/-- The frame at a place; a place that holds none reads as a nameless empty frame. -/
def frame (s : Scope α) (f : FrameId) : Frame α := s.frames.getD f { name := "" }

/-- The parent of a frame, which is older than the frame. -/
def parent? (s : Scope α) (f : FrameId) : Option { p : FrameId // p < f } :=
  match (s.frame f).parent with
  | some p => if h : p < f then some ⟨p, h⟩ else none
  | none => none

/-- A frame and then each enclosing frame outwards. -/
def chain (s : Scope α) (f : FrameId) : List FrameId :=
  match s.parent? f with
  | some ⟨p, _⟩ => f :: s.chain p
  | none => [f]
termination_by f

def bindsIn (s : Scope α) (f : FrameId) (name : String) : Bool :=
  (s.frame f).bindings.contains name

/-- The innermost frame of a frame's chain that binds the name. -/
def ownerFrom (s : Scope α) (f : FrameId) (name : String) : Option FrameId :=
  (s.chain f).find? (s.bindsIn · name)

/-- The frame in which the name is visible from the head: on the active chain,
innermost first, and then in the global frame. -/
def owner? (s : Scope α) (name : String) : Option FrameId :=
  match s.ownerFrom s.head name with
  | some f => some f
  | none => if s.bindsIn s.globals name then some s.globals else none

def lookup? (s : Scope α) (name : String) : Option α :=
  (s.owner? name).bind fun f => (s.frame f).bindings.get? name

/-- Binds a name in a given frame. -/
def defineIn (s : Scope α) (f : FrameId) (name : String) (value : α) : Scope α :=
  { s with
    frames := s.frames.modify f fun fr => { fr with bindings := fr.bindings.set name value }
    globals_lt := by simpa using s.globals_lt }

/-- Binds a name in the head, shadowing enclosing bindings. -/
def define (s : Scope α) (name : String) (value : α) : Scope α :=
  s.defineIn s.head name value

/-- Rebinds a name where it is visible, and else binds it in the head. -/
def assign (s : Scope α) (name : String) (value : α) : Scope α :=
  s.defineIn ((s.owner? name).getD s.head) name value

/-- Adds a frame to the store and leaves the head where it is. -/
def newFrame (s : Scope α) (name : String) (parent : Option FrameId) : FrameId × Scope α :=
  (s.frames.size,
    { s with
      frames := s.frames.push { name, parent }
      globals_lt := by simpa using Nat.lt_succ_of_lt s.globals_lt })

/-- Makes a frame the head. -/
def enter (s : Scope α) (f : FrameId) : Scope α := { s with head := f }

/-- Opens a new frame below the head and makes it the head. -/
def push (s : Scope α) (name : String) : Scope α :=
  let (f, s) := s.newFrame name (some s.head)
  s.enter f

/-- Leaves the head for its parent. The global frame and a frame without a
parent cannot be left. -/
def pop (s : Scope α) : Except EmptyStack (Scope α) :=
  match s.head == s.globals, (s.frame s.head).parent with
  | false, some p => .ok (s.enter p)
  | _, _ => .error ⟨(s.frame s.head).name⟩

/-- The names of the frames on the active chain, innermost first. -/
def names (s : Scope α) : List String := (s.chain s.head).map fun f => (s.frame f).name

/-- The frames that are looked through from the head: the active chain, innermost first, and
then the global frame. -/
def visibleFrames (s : Scope α) : List FrameId :=
  let active := s.chain s.head
  if active.contains s.globals then active else active ++ [s.globals]

/-- What a template sees: the bindings of the visible frames, inner ones over
outer ones. A name stands where its outermost binding put it. -/
def flatten (s : Scope α) : Bindings α :=
  s.visibleFrames.reverse.foldl (fun acc f => acc.merge (s.frame f).bindings) .empty

/-- The values bound in the visible frames, also where an inner binding hides them. -/
def boundValues (s : Scope α) : List α :=
  s.visibleFrames.flatMap fun f => (s.frame f).bindings.values

end Scope

end TreeScript
