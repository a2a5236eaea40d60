import RuleExchange.Platform.Basic
import RuleExchange.Settings.Basic

/-! Options of an exchange. A request may leave out any of them; what it leaves out is
taken from the defaults of the engine. -/

namespace RuleExchange

structure Options where
  timeoutMs : Nat := 30000
  /-- How eagerly the written rule is tuned, from 0 to 3. -/
  level : Nat := 1
  /-- Whether a flaw in the universal rule ends the exchange. -/
  strict : Bool := true
  retryAttempts : Nat := 3
  preserveComments : Bool := false
  targetVersion : Option String := none
  sourceVersion : Option String := none
  deriving DecidableEq, Repr

namespace Options

open Json (Member)

/-- The largest count of milliseconds that is written. -/
def maxMillis : Nat := Nat.pow 2 64 - 1

def members : List (Member Options) := [
  .of "timeout_ms" Json.Decode.word64 (fun n => .nat (min n maxMillis)) (·.timeoutMs)
    fun v o => { o with timeoutMs := v },
  .nat "optimization_level" 8 (·.level) fun v o => { o with level := v },
  .bool "strict_validation" (·.strict) fun v o => { o with strict := v },
  .nat "retry_attempts" 32 (·.retryAttempts) fun v o => { o with retryAttempts := v },
  .bool "preserve_comments" (·.preserveComments) fun v o => { o with preserveComments := v },
  .optional "target_version" Json.Decode.string .str (·.targetVersion)
    fun v o => { o with targetVersion := v },
  .optional "source_version" Json.Decode.string .str (·.sourceVersion)
    fun v o => { o with sourceVersion := v }]

def decoder : Json.Decoder Options := Json.Record.decode "options" members false {}

def toJson (o : Options) : Json.Value := Json.Record.encode members o

/-- The part of the options that the writer of the target's rule sees. -/
def conversion (o : Options) : Conversion := ⟨o.level, o.preserveComments, o.targetVersion⟩

end Options

/-- The options that a request gives itself. -/
structure Overrides where
  timeoutMs : Option Nat := none
  level : Option Nat := none
  strict : Option Bool := none
  retryAttempts : Option Nat := none
  preserveComments : Option Bool := none
  targetVersion : Option String := none
  sourceVersion : Option String := none
  deriving DecidableEq, Repr

namespace Overrides

open Json (Member)

def members : List (Member Overrides) := [
  .optional "timeout_ms" Json.Decode.word64 .nat (·.timeoutMs)
    fun v o => { o with timeoutMs := v },
  .optional "optimization_level" Json.Decode.word8 .nat (·.level)
    fun v o => { o with level := v },
  .optional "strict_validation" Json.Decode.bool .bool (·.strict)
    fun v o => { o with strict := v },
  .optional "retry_attempts" Json.Decode.word32 .nat (·.retryAttempts)
    fun v o => { o with retryAttempts := v },
  .optional "preserve_comments" Json.Decode.bool .bool (·.preserveComments)
    fun v o => { o with preserveComments := v },
  .optional "target_version" Json.Decode.string .str (·.targetVersion)
    fun v o => { o with targetVersion := v },
  .optional "source_version" Json.Decode.string .str (·.sourceVersion)
    fun v o => { o with sourceVersion := v }]

/-- Unknown options are errors. -/
def decoder : Json.Decoder Overrides := Json.Record.decode "request options" members true {}

def toJson (o : Overrides) : Json.Value := Json.Record.encode members o

/-- What a request gives wins over the defaults. -/
def resolve (r : Overrides) (d : Options) : Options :=
  { timeoutMs := r.timeoutMs.getD d.timeoutMs
    level := r.level.getD d.level
    strict := r.strict.getD d.strict
    retryAttempts := r.retryAttempts.getD d.retryAttempts
    preserveComments := r.preserveComments.getD d.preserveComments
    targetVersion := r.targetVersion.or d.targetVersion
    sourceVersion := r.sourceVersion.or d.sourceVersion }

end Overrides

/-- The options of requests that give none. -/
def Settings.Engine.options (e : Settings.Engine) : Options :=
  { timeoutMs := 1000 * e.timeoutSecs
    level := e.optimizationLevel
    strict := e.strictValidation
    retryAttempts := e.retryAttempts }

end RuleExchange
