import Dispatch.Host
import Dispatch.Registry.Import

/-!
# Errors of dispatch

Why a member could not be resolved or carried out. Only `DispatchError.hostFailed` arises after a
call to the host; every other error leaves the host untouched.
-/

namespace Dispatch

/-- Why a request failed. -/
inductive DispatchError
  /-- Nothing accessible has the name. -/
  | noSuchMember (t : TypeName) (name : String)
  /-- There are overloads, and none accepts arguments of these types. Null has no type. -/
  | noSuchOverload (t : TypeName) (name : String) (args : List (Option Ty))
  /-- A nested type that needs an enclosing instance was named on the enclosing type itself. -/
  | ambiguousBinding (enclosing nested : TypeName)
  /-- The host failed to carry out the selected member. -/
  | hostFailed (member : Member) (cause : HostError)
  /-- A full or simple name that has not been imported. -/
  | notImported (name : String)
  /-- A member of instances was selected on a type. -/
  | needsInstance (member : Member)
  | nullReceiver (name : String)
  | importFailed (cause : ImportError)
deriving DecidableEq

/-- The error in words. -/
def DispatchError.message : DispatchError → String
  | noSuchMember t name => "no member `" ++ name ++ "` on " ++ t.full
  | noSuchOverload t name args =>
    "no overload of `" ++ name ++ "` on " ++ t.full ++ " accepts (" ++
      ", ".intercalate (args.map Value.labelOf) ++ ")"
  | ambiguousBinding enclosing nested =>
    nested.full ++ " needs an enclosing " ++ enclosing.full ++ " instance, but " ++
      enclosing.full ++ " was referenced statically"
  | hostFailed member cause => member.display ++ " failed: " ++ cause.message
  | notImported name => "type `" ++ name ++ "` is not imported"
  | needsInstance member => member.display ++ " needs an instance receiver"
  | nullReceiver name => "null receiver for `" ++ name ++ "`"
  | importFailed cause => cause.message

end Dispatch
