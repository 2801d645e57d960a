import Wavefront.Digest
import Wavefront.Json.Printer
import Wavefront.Plan.Basic
set_option autoImplicit false

/-!
The fingerprint of a plan is the digest of its document form. Its first twelve digits are the scope under
which the plan keeps its temporary files, so that different plans do not meet there.
-/
namespace Wavefront.Plan

def text (p : Plan) : String := p.toJson.render

def fingerprint (p : Plan) : String := Digest.ofText p.text

/-- The name of the directory for the temporary files of a plan. -/
def scope (p : Plan) : String := Digest.shortHex 12 p.text.toUTF8.toList

end Wavefront.Plan
