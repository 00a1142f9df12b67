import TokenDispatch.Contract
import TokenDispatch.CodeUnit

/-!
Where the calls of a unit on itself and on its base lead. Special calls must lead somewhere here,
since nothing else answers them; the virtual call of the fallback leads to the base; every other
call goes outside, even when its owner is named like the unit.
-/

namespace TokenDispatch

inductive Link where
  | routine (r : Routine)
  | initializer
  | fallback

namespace CodeUnit

/-- Whether a site names the fallback, in the shape that the base answers. -/
def namesFallback (site : CallSite) : Bool :=
  site.name == RoutineName.fallback && site.descriptor == Signature.dispatch.descriptor

/-- Whether a site names the initializer, in the shape that the base answers. -/
def namesInitializer (site : CallSite) : Bool :=
  site.name == RoutineName.initializer && site.descriptor == Signature.initializer.descriptor

/-- What a special call inherits from the base. -/
def inherited? (site : CallSite) : Option Link :=
  if namesInitializer site then some .initializer
  else if namesFallback site then some .fallback
  else none

/-- A routine of the unit is preferred to what the unit inherits under the same name. -/
def link? (u : CodeUnit) (site : CallSite) : Option Link :=
  let own := site.owner == u.name
  let onBase := own || site.owner == u.base
  match site.kind with
  | .special =>
      let routine? := if own then u.find? site.name site.descriptor else none
      (routine?.map .routine).or (if onBase then inherited? site else none)
  | .virtual => if onBase && namesFallback site then some .fallback else none
  | .static | .interface => none

/-- The call sites of a unit in the order of its code, each with the routine it is in. -/
def sites (u : CodeUnit) : List (Routine × CallSite) :=
  u.routines.toList.flatMap fun r => r.code.toList.filterMap fun
    | .call site => some (r, site)
    | _ => none

/-- The first special call that leads nowhere. -/
def unresolved? (u : CodeUnit) : Option (Routine × CallSite) :=
  u.sites.find? fun (_, site) => site.kind == .special && (u.link? site).isNone

/-- A routine that callers from outside can rely on. Only the first of its name and descriptor
counts. -/
def exported? (u : CodeUnit) (name : String) (sig : Signature) : Option Routine :=
  (u.find? name sig.descriptor).filter (·.access == .exported)

end CodeUnit

end TokenDispatch
