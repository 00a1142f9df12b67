import TokenDispatch.Ty

/-!
Call sites: how a target is looked for, what it is called, and with which types; and who may call a
routine. The descriptor of a site is stored beside its signature, since linking goes by the stored
text alone.
-/

namespace TokenDispatch

inductive Access where
  | exported
  | internal
deriving DecidableEq

def Access.keyword : Access → String
  | .exported => "public"
  | .internal => "private"

inductive CallKind where
  | static
  | virtual
  | interface
  /-- A call bound to exactly the named owner: a routine of the unit, or the base's initializer. -/
  | special
deriving DecidableEq

namespace CallKind

def hasReceiver : CallKind → Bool
  | static => false
  | _ => true

def mnemonic : CallKind → String
  | static => "invokestatic"
  | virtual => "invokevirtual"
  | interface => "invokeinterface"
  | special => "invokespecial"

end CallKind

structure CallSite where
  kind : CallKind
  owner : String
  name : String
  sig : Signature
  descriptor : String := sig.descriptor
deriving DecidableEq

namespace CallSite

def text (site : CallSite) : String :=
  site.kind.mnemonic ++ " " ++ site.owner ++ "." ++ site.name ++ site.descriptor

/-- How many operands the arguments and the receiver take. -/
def operands (site : CallSite) : Nat :=
  site.sig.params.length + if site.kind.hasReceiver then 1 else 0

end CallSite

end TokenDispatch
