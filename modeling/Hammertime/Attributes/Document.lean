import Mathlib.Logic.Equiv.List
import Hammertime.Attributes.Exactness

/-!
# A tree as a document

What `json.loads` builds and what `canonicalize_ip_attributes` returns is a tree: every container in
it is an object of its own. Here is its heap, in which a container's identity is the path to it from
the root. The document unfolds to the tree it was made of, so that validating it depends on the tree
alone.
-/

namespace Hammertime.Attributes

open Lib

/-- A document: a value and the heap it lives in. -/
structure Document where
  heap : Heap
  root : Value

/-- The part of a value that a path of indices leads to. -/
def partAt : Json → List ℕ → Option Json
  | j, [] => some j
  | .arr items, i :: path => items[i]?.bind fun j => partAt j path
  | .obj fields, i :: path => fields[i]?.bind fun p => partAt p.2 path
  | _, _ :: _ => none

/-- The Python value at a path. -/
def valueAt (path : List ℕ) : Json → Value
  | .null => .none
  | .bool b => .bool b
  | .int n => .int n
  | .float f => .float f
  | .str t => .str t
  | .arr _ => .container (Encodable.encode path)
  | .obj _ => .container (Encodable.encode path)

/-- What the container at a path holds. -/
def containerAt (path : List ℕ) : Json → Container
  | .arr items => .list (items.mapIdx fun i j => valueAt (path ++ [i]) j)
  | .obj fields => .dict (fields.mapIdx fun i p => (.str p.1, valueAt (path ++ [i]) p.2))
  | _ => .list []

/-- The document of a tree. -/
def Document.ofJson (j : Json) : Document where
  heap id :=
    match (Encodable.decode id : Option (List ℕ)) with
    | none => .list []
    | some path => ((partAt j path).map (containerAt path)).getD (.list [])
  root := valueAt [] j

theorem partAt_append {j : Json} {path more : List ℕ} :
    partAt j (path ++ more) = (partAt j path).bind fun j' => partAt j' more := by
  induction path generalizing j with
  | nil => cases j <;> rfl
  | cons i path ih =>
    cases j with
    | arr items =>
      simp only [List.cons_append, partAt, ih, Option.bind_assoc]
    | obj fields =>
      simp only [List.cons_append, partAt, ih, Option.bind_assoc]
    | _ => rfl

theorem heap_ofJson {j j' : Json} {path : List ℕ} (h : partAt j path = some j') :
    (Document.ofJson j).heap (Encodable.encode path) = containerAt path j' := by
  simp only [Document.ofJson, Encodable.encodek, h, Option.map_some, Option.getD_some]

/-- A list stands in a relation to its indexed images when each element does. -/
theorem forall₂_mapIdx {α β : Type} {R : α → β → Prop} {f : ℕ → α → β} {l : List α}
    (h : ∀ i a, l[i]? = some a → R a (f i a)) : List.Forall₂ R l (l.mapIdx f) := by
  induction l generalizing f with
  | nil => exact .nil
  | cons a l ih =>
    rw [List.mapIdx_cons]
    exact .cons (h 0 a rfl) (ih fun i b hb => h (i + 1) b hb)

/-- Every part of a tree is what the document holds at its path. -/
theorem unfolds_valueAt {j j' : Json} {path : List ℕ} (h : partAt j path = some j') :
    Unfolds (Document.ofJson j).heap j' (valueAt path j') := by
  induction j' using Json.induct generalizing path with
  | arr items ih =>
    refine unfolds_arr.mpr ⟨_, _, rfl, heap_ofJson h, forall₂_mapIdx fun i x hx => ?_⟩
    refine ih x (List.mem_of_getElem? hx) ?_
    rw [partAt_append, h]
    simp [partAt, hx]
  | obj fields ih =>
    refine unfolds_obj.mpr ⟨_, _, rfl, heap_ofJson h, forall₂_mapIdx fun i p hp => ⟨rfl, ?_⟩⟩
    refine ih p (List.mem_of_getElem? hp) ?_
    rw [partAt_append, h]
    simp [partAt, hp]
  | _ => rfl

/-- The document of a tree unfolds to the tree. -/
theorem unfolds_ofJson (j : Json) : Unfolds (Document.ofJson j).heap j (Document.ofJson j).root := by
  have h : partAt j [] = some j := by cases j <;> rfl
  exact unfolds_valueAt h

/-- The document of a tree is valid exactly when the tree is an admissible object, and its canonical
copy is the tree. -/
theorem canonicalize_ofJson (format : FloatFormat) (j : Json) (c : CanonicalAttributes) :
    canonicalizeIpAttributes format.repr (Document.ofJson j).heap (Document.ofJson j).root = .ok c ↔
      j = .obj c.document ∧ Admissible format.repr c.document ∧
        c.text = Json.text format.repr (.obj c.document) := by
  rw [(canonicalize_exact format _ _).1 c]
  constructor
  · rintro ⟨fields, hun, hadm, rfl⟩
    exact ⟨(unfolds_ofJson j).unique hun, hadm, rfl⟩
  · rintro ⟨rfl, hadm, htext⟩
    exact ⟨c.document, unfolds_ofJson _, hadm, by rw [← htext]⟩

end Hammertime.Attributes
