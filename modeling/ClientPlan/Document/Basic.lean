import ClientPlan.Service.Definition

/-!
# Definition Documents

The content of a definition document: a version and some services.

The types in a document say one thing more than planning needs. A type that
comes from elsewhere may name another one to fall back on. `TypeForm.erase`
drops that, and `TypeForm.ofType` is its inverse on types without fallbacks, so
services and documents can be compared in either form.

## Main definitions

* `TypeForm`: The types of a document.
* `Document`: The content of a document.
* `Document.definitions`: The services, as planning sees them.
* `Document.ofDefinitions`: The plainest document with some services.
* `Document.plain`: A document without its version and its fallbacks.

## Theorems

* `TypeForm.erase_ofType`: Types survive the way into a document and back.
* `TypeForm.ofType_erase`: The other way around only the fallbacks are lost.
-/

namespace ClientPlan

/-- The types that a document can declare. -/
inductive TypeForm where
  | primitive (kind : Primitive)
  | optional (item : TypeForm)
  | list (item : TypeForm)
  | set (item : TypeForm)
  | map (key value : TypeForm)
  | reference (target : TypeName)
  | external (target : TypeName)
  /-- A type that comes from elsewhere, with one to fall back on. -/
  | externalOr (target : TypeName) (fallback : TypeForm)
  deriving DecidableEq, Repr

namespace TypeForm

/-- The type as planning sees it. -/
def erase : TypeForm → TypeExpr
  | primitive kind => .primitive kind
  | optional item => .optional item.erase
  | list item => .list item.erase
  | set item => .set item.erase
  | map key value => .map key.erase value.erase
  | reference target => .reference target
  | external target => .external target
  | externalOr target _ => .external target

/-- The type as a document declares it, without fallbacks. -/
def ofType : TypeExpr → TypeForm
  | .primitive kind => primitive kind
  | .optional item => optional (ofType item)
  | .list item => list (ofType item)
  | .set item => set (ofType item)
  | .map key value => map (ofType key) (ofType value)
  | .reference target => reference target
  | .external target => external target

/-- The type without the fallbacks in it. -/
def dropFallback : TypeForm → TypeForm
  | primitive kind => primitive kind
  | optional item => optional item.dropFallback
  | list item => list item.dropFallback
  | set item => set item.dropFallback
  | map key value => map key.dropFallback value.dropFallback
  | reference target => reference target
  | external target => external target
  | externalOr target _ => external target

theorem erase_ofType (t : TypeExpr) : (ofType t).erase = t := by
  induction t with
  | primitive kind => rfl
  | optional item ih => simp only [ofType, erase, ih]
  | list item ih => simp only [ofType, erase, ih]
  | set item ih => simp only [ofType, erase, ih]
  | map key value ihk ihv => simp only [ofType, erase, ihk, ihv]
  | reference target => rfl
  | external target => rfl

theorem ofType_erase (t : TypeForm) : ofType t.erase = t.dropFallback := by
  induction t with
  | primitive kind => rfl
  | optional item ih => simp only [ofType, erase, dropFallback, ih]
  | list item ih => simp only [ofType, erase, dropFallback, ih]
  | set item ih => simp only [ofType, erase, dropFallback, ih]
  | map key value ihk ihv => simp only [ofType, erase, dropFallback, ihk, ihv]
  | reference target => rfl
  | external target => rfl
  | externalOr target fallback _ => rfl

end TypeForm

/-- The content of a definition document. -/
structure Document where
  version : Int
  services : List (Service TypeForm)
  deriving DecidableEq, Repr

namespace Document

/-- The version of a document that gives none. -/
def defaultVersion : Int := 1

/-- The services of a document, as planning sees them. -/
def definitions (d : Document) : List (Service TypeExpr) :=
  d.services.map (Service.mapType TypeForm.erase)

/-- The plainest document with some services. -/
def ofDefinitions (services : List (Service TypeExpr)) : Document :=
  ⟨defaultVersion, services.map (Service.mapType TypeForm.ofType)⟩

/-- A document with the default version and without fallbacks. -/
def plain (d : Document) : Document :=
  ⟨defaultVersion, d.services.map (Service.mapType TypeForm.dropFallback)⟩

end Document

end ClientPlan
