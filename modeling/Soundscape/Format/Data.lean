import Soundscape.Number.Binary64

/-!
# Structured output

The program writes its results as trees of data.  A tree says what is written; `Format/Json` and
`Format/Yaml` say how.
-/

namespace Soundscape

/-- A tree of data. -/
inductive Data where
  | null
  | bool (b : Bool)
  | nat (n : Nat)
  | number (x : Double)
  | text (s : String)
  | list (items : List Data)
  | record (fields : List (String × Data))
  | tagged (kind : String) (value : Data)

end Soundscape
