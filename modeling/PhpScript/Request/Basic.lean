/-!
# Requests

What a script is given from outside when it is started.
-/

namespace PhpScript

/-- What a script is asked. -/
structure Request where
  environment : List (String × String) := []
  arguments : List String := []
  query : String := ""
  body : String := ""
  cookie : String := ""
  server : List (String × String) := []
deriving Inhabited

end PhpScript
