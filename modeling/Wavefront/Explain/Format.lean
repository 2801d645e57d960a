import Wavefront.Explain.Dot
import Wavefront.Explain.Listing
import Wavefront.Text.Blank
set_option autoImplicit false

/-!
The two forms in which a job graph is explained, and their names.
-/
namespace Wavefront

/-- A form in which a job graph is explained. -/
inductive ExplainFormat where
  | text | dot
deriving DecidableEq, Repr

namespace ExplainFormat

def name : ExplainFormat → String
  | .text => "text"
  | .dot => "dot"

/-- The form of a name in letters of either case, or why there is none. -/
def ofName (s : String) : Except String ExplainFormat :=
  let word := Text.lower s
  if word = "text" then .ok .text
  else if word = "dot" then .ok .dot
  else .error ("unknown explain format '" ++ word ++ "' (expected text or dot)")

end ExplainFormat

def Graph.explain (g : Graph) (format : ExplainFormat) (verbose : Bool) : String :=
  match format with
  | .text => Explain.listing g verbose
  | .dot => Explain.dot g verbose

end Wavefront
