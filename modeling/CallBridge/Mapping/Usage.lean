/-!
# Usage examples

What a call looks like on a page and on the platform.
-/

namespace CallBridge

/-- The same call on both sides. -/
structure Usage where
  web : String
  platform : String
  deriving DecidableEq, Repr

end CallBridge
