import RuleExchange.Json.Writer
import RuleExchange.Text.Part

/-! Health of components and of the whole. The whole is as ill as its worst component,
for the reasons that the worst components give. -/

namespace RuleExchange

inductive Health where
  | healthy
  | degraded (reason : String)
  | unhealthy (reason : String)
  deriving DecidableEq, Repr

namespace Health

def status : Health → String
  | healthy => "healthy"
  | degraded _ => "degraded"
  | unhealthy _ => "unhealthy"

def text : Health → String
  | healthy => "healthy"
  | degraded reason => "degraded: " ++ reason
  | unhealthy reason => "unhealthy: " ++ reason

def isHealthy : Health → Bool
  | healthy => true
  | _ => false

def isUnhealthy : Health → Bool
  | unhealthy _ => true
  | _ => false

def members : Health → List (String × Json.Value)
  | healthy => [("status", .str "healthy")]
  | degraded reason => [("status", .str "degraded"), ("reason", .str reason)]
  | unhealthy reason => [("status", .str "unhealthy"), ("reason", .str reason)]

def toJson (h : Health) : Json.Value := .obj h.members

end Health

/-- A part of the service with its health. -/
structure Component where
  name : String
  health : Health
  deriving DecidableEq, Repr

namespace Component

def toJson (c : Component) : Json.Value :=
  .obj [("name", .str c.name), ("status", c.health.toJson)]

/-- How ill the components seen so far are, with the reasons of the worst of them. -/
inductive Worst where
  | fine
  | degraded (reasons : List String)
  | unhealthy (reasons : List String)
  deriving DecidableEq, Repr

def reasonText (name reason : String) : String := name ++ ": " ++ reason

/-- Takes one more component into account. -/
def Worst.see (w : Worst) (c : Component) : Worst :=
  match c.health, w with
  | .healthy, w => w
  | .degraded r, .fine => .degraded [reasonText c.name r]
  | .degraded r, .degraded rs => .degraded (rs ++ [reasonText c.name r])
  | .degraded _, .unhealthy rs => .unhealthy rs
  | .unhealthy r, .unhealthy rs => .unhealthy (rs ++ [reasonText c.name r])
  | .unhealthy r, _ => .unhealthy [reasonText c.name r]

def Worst.health : Worst → Health
  | .fine => .healthy
  | .degraded rs => .degraded (Text.joined "; " rs)
  | .unhealthy rs => .unhealthy (Text.joined "; " rs)

/-- The health of the whole. -/
def aggregate (cs : List Component) : Health := (cs.foldl Worst.see .fine).health

end Component

end RuleExchange
