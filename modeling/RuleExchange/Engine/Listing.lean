import RuleExchange.Engine.Service

/-!
The platforms of an engine as they are listed: identifier, family, the window of
supported versions, and the version that the settings name as deployed.
-/

namespace RuleExchange

structure PlatformInfo where
  id : String
  family : Family
  minVersion : String
  maxVersion : String
  deployed : Option String

namespace PlatformInfo

def toJson (p : PlatformInfo) : Json.Value :=
  .obj ([("id", .str p.id), ("family", .str p.family.name), ("min_version", .str p.minVersion),
    ("max_version", .str p.maxVersion)] ++
    (p.deployed.map fun v => ("configured_version", Json.Value.str v)).toList)

end PlatformInfo

/-- The platforms in the order of their identifiers. -/
def Engine.platforms (e : Engine) : List PlatformInfo :=
  e.setup.registry.platforms.map fun (_, p) =>
    { id := p.id
      family := p.family
      minVersion := p.profile.minVersion
      maxVersion := p.profile.maxVersion
      deployed := (e.setup.settings.platform? p.id).map (·.version) }

end RuleExchange
