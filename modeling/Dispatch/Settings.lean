/-!
# Settings

The switches that steer resolution, and `Settings.Layer`, a set of changes to them: a layer says
nothing about a switch it leaves out, so layers can be laid over one another.
-/

namespace Dispatch

/-- The settings in force. -/
structure Settings where
  /-- Whether decimals are ranked by magnitude when arguments are scored. -/
  recastDecimals : Bool := true
  /-- Whether resolutions are kept for further calls of the same shape. -/
  memoize : Bool := true
  /-- Whether a type has to be registered before members are resolved on it. -/
  requireImports : Bool := false
deriving DecidableEq, Inhabited

namespace Settings

/-- Changes to settings. -/
structure Layer where
  recastDecimals : Option Bool := none
  memoize : Option Bool := none
  requireImports : Option Bool := none
deriving DecidableEq, Inhabited

/-- The settings with the changes of a layer. -/
def merge (s : Settings) (layer : Layer) : Settings where
  recastDecimals := layer.recastDecimals.getD s.recastDecimals
  memoize := layer.memoize.getD s.memoize
  requireImports := layer.requireImports.getD s.requireImports

/-- The settings of a layer laid over the defaults. -/
def ofLayer (layer : Layer) : Settings := merge {} layer

/-- A rendering that shows every switch. -/
def inspect (s : Settings) : String :=
  "BinderConfig \x7b recast_decimals: " ++ toString s.recastDecimals ++ ", memoize: " ++
    toString s.memoize ++ ", require_imports: " ++ toString s.requireImports ++ " \x7d"

end Settings

end Dispatch
