import Bracketing.Decimal.Shortest

namespace Bracketing.Double

def text (x : Float) : String :=
  let k := ordinal x
  if infinity < k then "NaN"
  else (if isNegative x then "-" else "") ++
    if k = infinity then "inf" else (Decimal.shortest k).text

end Bracketing.Double
