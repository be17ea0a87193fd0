/-! How truth values are written. -/

namespace Wanda.Text

def truth (b : Bool) : String :=
  if b then "true" else "false"

end Wanda.Text
