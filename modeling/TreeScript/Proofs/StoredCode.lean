import TreeScript.Proofs.CodeEquality
import TreeScript.Value.Ancestry
import TreeScript.Value.Display
import TreeScript.Value.Members
import TreeScript.Value.Printed

/-!
# Code on the heap

Functions and overload sets keep code on the heap. Changing every stored
function, name and bound values aside, leaves every object where it is: fields
and classes, ancestries, methods and defaults, and what values display stay as
they are. If the bare code stays too, so does the equality of values.
-/

namespace TreeScript

def Payload.mapFunctions (f : Function → Function) : Payload → Payload
  | .function fn => .function (f fn)
  | .overloads name fns => .overloads name (fns.map f)
  | p => p

namespace Heap

def mapFunctions (f : Function → Function) (h : Heap) : Heap :=
  ⟨h.objects.map fun o => { o with payload := o.payload.mapFunctions f }⟩

section Reading

variable (f : Function → Function) (h : Heap) (r : Ref)

theorem object_mapFunctions :
    (h.mapFunctions f).object r =
      { h.object r with payload := (h.payload r).mapFunctions f } := by
  by_cases hr : r < h.objects.size
  · simp [mapFunctions, object, payload, Array.getD, hr]
  · simp [mapFunctions, object, payload, Array.getD, hr, Payload.mapFunctions]

@[simp] theorem payload_mapFunctions :
    (h.mapFunctions f).payload r = (h.payload r).mapFunctions f := by
  rw [payload, object_mapFunctions]

@[simp] theorem fields_mapFunctions : (h.mapFunctions f).fields r = h.fields r := by
  rw [fields, object_mapFunctions]
  rfl

@[simp] theorem isTruthy_mapFunctions : (h.mapFunctions f).isTruthy r = h.isTruthy r := by
  unfold isTruthy
  rw [payload_mapFunctions]
  cases h.payload r <;> rfl

@[simp] theorem class?_mapFunctions : (h.mapFunctions f).class? r = h.class? r := by
  unfold class?
  rw [payload_mapFunctions]
  cases h.payload r <;> rfl

@[simp] theorem classOf_mapFunctions : (h.mapFunctions f).classOf r = h.classOf r := by
  unfold classOf
  rw [payload_mapFunctions]
  cases h.payload r <;> rfl

@[simp] theorem className_mapFunctions : (h.mapFunctions f).className r = h.className r := by
  rw [className, className, class?_mapFunctions]

@[simp] theorem superclass?_mapFunctions :
    (h.mapFunctions f).superclass? r = h.superclass? r := by
  simp only [superclass?, class?_mapFunctions]

@[simp] theorem ancestry_mapFunctions : (h.mapFunctions f).ancestry r = h.ancestry r := by
  induction r using Nat.strongRecOn with
  | ind r ih =>
    rw [ancestry_eq, ancestry_eq, superclass?_mapFunctions]
    cases h.superclass? r with
    | none => rfl
    | some s => simp [ih s.1 s.2]

@[simp] theorem isSubclass_mapFunctions (other : Ref) :
    (h.mapFunctions f).isSubclass r other = h.isSubclass r other := by
  rw [isSubclass, isSubclass, ancestry_mapFunctions]

variable (name : String)

@[simp] theorem methodOf?_mapFunctions :
    (h.mapFunctions f).methodOf? r name = h.methodOf? r name := by
  rw [methodOf?, methodOf?, class?_mapFunctions]

@[simp] theorem findMethod?_mapFunctions :
    (h.mapFunctions f).findMethod? r name = h.findMethod? r name := by
  simp only [findMethod?, ancestry_mapFunctions, methodOf?_mapFunctions]

@[simp] theorem findDefault?_mapFunctions :
    (h.mapFunctions f).findDefault? r name = h.findDefault? r name := by
  simp only [findDefault?, defaultOf?, ancestry_mapFunctions, class?_mapFunctions]

@[simp] theorem startingFields_mapFunctions :
    (h.mapFunctions f).startingFields r = h.startingFields r := by
  simp only [startingFields, ancestry_mapFunctions, class?_mapFunctions]

@[simp] theorem isBindable_mapFunctions : (h.mapFunctions f).isBindable r = h.isBindable r := by
  unfold isBindable
  rw [payload_mapFunctions]
  cases h.payload r <;> rfl

end Reading

section Showing

variable {f : Function → Function} (h : Heap) (r : Ref)

theorem display_mapFunctions (hf : ∀ fn, (f fn).name = fn.name) :
    (h.mapFunctions f).display r = h.display r := by
  induction r using Nat.strongRecOn with
  | ind r ih =>
    rw [display, display, payload_mapFunctions]
    cases h.payload r with
    | list items =>
      simp only [Payload.mapFunctions]
      congr 3
      refine List.map_congr_left fun i _ => ?_
      split
      · next hi => exact ih i hi
      · rfl
    | superView inst start =>
      simp only [Payload.mapFunctions, className_mapFunctions]
      congr 2
      split
      · next hi => rw [ih inst hi]
      · rfl
    | function fn => simp only [Payload.mapFunctions, hf]
    | _ => simp only [Payload.mapFunctions, className_mapFunctions]

@[simp] theorem depth_mapFunctions : (h.mapFunctions f).depth r = h.depth r := by
  induction r using Nat.strongRecOn with
  | ind r ih =>
    rw [depth, depth, payload_mapFunctions]
    cases h.payload r with
    | list items =>
      simp only [Payload.mapFunctions]
      congr 2
      refine List.map_congr_left fun i _ => ?_
      split
      · next hi => exact ih i hi
      · rfl
    | _ => rfl

theorem display?_mapFunctions (hf : ∀ fn, (f fn).name = fn.name) (room : Nat) :
    (h.mapFunctions f).display? room r = h.display? room r := by
  unfold display?
  rw [depth_mapFunctions, display_mapFunctions h r hf]

theorem print?_mapFunctions (hname : ∀ fn, (f fn).name = fn.name)
    (hparams : ∀ fn, (f fn).params.length = fn.params.length)
    (hself : ∀ fn, (f fn).self = fn.self) (indent nesting level : Nat) :
    (h.mapFunctions f).print? indent nesting r level = h.print? indent nesting r level := by
  have hdisplay (s : Ref) := display_mapFunctions h s hname
  have hdisplay? (s : Ref) := display?_mapFunctions h s hname
  -- items and fields are one nesting further in
  induction nesting generalizing r level with
  | zero =>
    rw [print?, print?, payload_mapFunctions]
    cases h.payload r with
    | function fn => simp only [Payload.mapFunctions, hname, hparams, hself, hdisplay?]
    | overloads name fns => simp only [Payload.mapFunctions, List.length_map]
    | «instance» c => simp only [Payload.mapFunctions, fields_mapFunctions, hdisplay]
    | _ => simp only [Payload.mapFunctions, hdisplay?]
  | succ nesting ih =>
    rw [print?, print?, payload_mapFunctions]
    cases h.payload r with
    | list items => simp only [Payload.mapFunctions, ih]
    | function fn => simp only [Payload.mapFunctions, hname, hparams, hself, hdisplay?]
    | overloads name fns => simp only [Payload.mapFunctions, List.length_map]
    | «instance» c =>
      simp only [Payload.mapFunctions, fields_mapFunctions, className_mapFunctions, hdisplay, ih]
    | _ => simp only [Payload.mapFunctions, hdisplay?]

theorem same_mapFunctions (hf : ∀ fn, (f fn).bare = fn.bare) (a b : Ref) :
    (h.mapFunctions f).same a b = h.same a b := by
  induction a using Nat.strongRecOn generalizing b with
  | ind a ih =>
    rw [same, same, payload_mapFunctions, payload_mapFunctions]
    cases h.payload a <;> cases h.payload b <;> try rfl
    case list.list as bs =>
      simp only [Payload.mapFunctions]
      congr 2
      funext ⟨i, j⟩
      dsimp only
      split
      · next hi => exact ih i hi j
      · rfl
    case function.function fn gn =>
      simp only [Payload.mapFunctions]
      rw [Bool.eq_iff_iff, Function.same_iff, Function.same_iff, hf, hf]
    case overloads.overloads n fs m gs =>
      simp only [Payload.mapFunctions]
      congr 1
      rw [Bool.eq_iff_iff, Function.sameAll_iff, Function.sameAll_iff, List.map_map, List.map_map]
      simp only [Function.comp_def, hf]

theorem codeDepth_mapFunctions (hf : ∀ fn, (f fn).bare = fn.bare) :
    (h.mapFunctions f).codeDepth r = h.codeDepth r := by
  have hdepth (fn : Function) : (f fn).depth = fn.depth := Function.depth_of_bare (hf fn)
  unfold codeDepth
  rw [payload_mapFunctions]
  cases h.payload r with
  | function fn => exact hdepth fn
  | overloads name fns =>
    simp only [Payload.mapFunctions, List.map_map, Function.comp_def, hdepth]
  | _ => rfl

theorem same?_mapFunctions (hf : ∀ fn, (f fn).bare = fn.bare) (room : Nat) (a b : Ref) :
    (h.mapFunctions f).same? room a b = h.same? room a b := by
  have hsame (a b : Ref) := same_mapFunctions h hf a b
  have hdepth (r : Ref) := codeDepth_mapFunctions h r hf
  induction room generalizing a b with
  | zero =>
    rw [same?, same?, payload_mapFunctions, payload_mapFunctions]
    cases h.payload a <;> cases h.payload b <;> simp only [Payload.mapFunctions, hsame, hdepth]
  | succ room ih =>
    have hitems : (h.mapFunctions f).same? room = h.same? room := funext₂ ih
    rw [same?, same?, payload_mapFunctions, payload_mapFunctions]
    cases h.payload a <;> cases h.payload b <;>
      simp only [Payload.mapFunctions, hsame, hdepth, hitems]

end Showing

end Heap

end TreeScript
