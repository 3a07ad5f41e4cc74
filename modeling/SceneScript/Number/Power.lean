/-!
Powers. Overflow and zero to a negative power give infinities, a negative number to a power
that is no integer gives no number, and so does every undetermined exponent.
-/

namespace SceneScript

/-- `base` to the power `exponent`. An exponent that is no number, or an infinite one of a base
    of magnitude one, leaves the result undetermined. -/
def power (base exponent : Float) : Float :=
  if exponent.isNaN || (base.abs == 1 && exponent.isInf) then 0.0 / 0.0
  else base ^ exponent

end SceneScript
