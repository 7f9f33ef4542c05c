/-!
Log records. Operations report what they removed or found unreferenced; the host reports how each
transaction ended.
-/

namespace NameTree

inductive LogLevel where
  | debug
  | warning
  deriving DecidableEq

inductive LogSource where
  | operations
  | host
  deriving DecidableEq

structure LogRecord where
  level : LogLevel
  source : LogSource
  message : String
  deriving DecidableEq

end NameTree
