import Groom.Bytes
import Groom.StringMap

/-!
What programs find in their environment.
-/
namespace Groom.Machine

abbrev Environment := StringMap Bytes

namespace Environment

/-- The directories in which programs are searched, between colons. -/
def searchPath (env : Environment) : Bytes := (env.get? "PATH").getD []

def home (env : Environment) : Bytes := (env.get? "HOME").getD []

end Environment

end Groom.Machine
