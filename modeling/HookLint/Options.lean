import HookLint.Value

namespace HookLint

structure Options where
  stem : Value := .str "use"
  effectPattern : Value := .null
  stableNames : Value := .list []
  flagStable : Bool := false
  strictMembers : Bool := false
deriving Repr, Inhabited

def Options.report (options : Options) : Value :=
  .made [
    ("helper_prefix", options.stem),
    ("additional_hooks", options.effectPattern),
    ("additional_stable_identifiers", options.stableNames),
    ("flag_stable_dependencies", .bool options.flagStable),
    ("strict_member_dependencies", .bool options.strictMembers)]

end HookLint
