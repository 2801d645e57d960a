set_option autoImplicit false

/-!
Texts made of lines. Every line ends with a line break, the last one too.
-/
namespace Wavefront.Text

def unlines (lines : List String) : String :=
  String.ofList (lines.flatMap fun line => line.toList ++ ['\n'])

def indent (width : Nat) (line : String) : String :=
  String.ofList (List.replicate width ' ' ++ line.toList)

/-- The texts one after another with a comma and a space between them. -/
def commaList (items : List String) : String := String.intercalate ", " items

end Wavefront.Text
