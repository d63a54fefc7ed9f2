import ClassScript.Proofs.Machine.Lexical
import ClassScript.Proofs.Typing.Surrounded
import ClassScript.Session

/-!
# What a use of the superclasses means

In the body of a method the checker and the machine agree on it: both go by the declaration of the
class around the use, and both take the name of the method around it where the use has none of its
own. In the default of a parameter they do not. The machine evaluates a default inside the method,
but the checker checks it in the context that the class lies in, so that it takes the superclasses
of another class, or of none.
-/

namespace ClassScript

open Scope
open Typing (Checker Surroundings Whereabouts)

namespace Typing.Check

/-! ### Treatments -/

end Typing.Check

/-! ### The checker and the machine -/

end ClassScript
