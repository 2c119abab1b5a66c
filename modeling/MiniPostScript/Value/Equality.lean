import MiniPostScript.Value

set_option autoImplicit false

namespace MiniPostScript

mutual
def Value.equal : Value → Value → Bool
  | .integer m, .integer n => m == n
  | .real x, .real y => x.same y
  | .boolean a, .boolean b => a == b
  | .string s, .string t => s == t
  | .name s, .name t => s == t
  | .block s, .block t => s == t
  | .operator p, .operator q => p == q
  | .dictionary d, .dictionary e => d.equal e
  | _, _ => false
def Dictionary.equal : Dictionary → Dictionary → Bool
  | .mk m a, .mk n b => m == n && a.equal b
-- Sorted bindings hold the same mapping exactly when they agree place by place.
def Bindings.equal : Bindings → Bindings → Bool
  | .nil, .nil => true
  | .cons j v rest, .cons k w other => j == k && v.equal w && rest.equal other
  | _, _ => false
end

end MiniPostScript
