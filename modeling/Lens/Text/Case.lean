import Lens.Text.Str

/-!
# Letter case

Texts are compared in any letter case by their small letters, and dispatched on
by their capitals.  The two agree: a text is a letter case of its capitals.
-/

namespace Str

open List

@[simp] theorem toAsciiUppercase_toAsciiUppercase (s : String) :
    toAsciiUppercase (toAsciiUppercase s) = toAsciiUppercase s := by
  rw [toAsciiUppercase, toAsciiUppercase, String.toList_ofList, map_map]
  exact congrArg String.ofList (map_congr_left fun c _ => Char.toUpper_toUpper_eq_toUpper c)

theorem toAsciiLowercase_toAsciiUppercase (s : String) :
    toAsciiLowercase (toAsciiUppercase s) = toAsciiLowercase s := by
  rw [toAsciiLowercase, toAsciiUppercase, toAsciiLowercase, String.toList_ofList, map_map]
  exact congrArg String.ofList (map_congr_left fun c _ => Char.toLower_toUpper_eq_toLower c)

/-- A text is a letter case of its capitals. -/
theorem eqIgnoreAsciiCase_of_toAsciiUppercase {s t : String} (h : toAsciiUppercase s = t) :
    eqIgnoreAsciiCase s t = true := by
  rw [eqIgnoreAsciiCase_iff, ← h, toAsciiLowercase_toAsciiUppercase]

end Str
