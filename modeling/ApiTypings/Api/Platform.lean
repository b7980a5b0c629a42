/-!
The platforms of an API and the names they are shown by.
-/

namespace ApiTypings

/-- The display names of the platforms that have one. -/
def platformNames : List (String × String) :=
  [("android", "Android"), ("blackberry", "BlackBerry"), ("ipad", "iPad"), ("iphone", "iPhone"),
   ("macos", "macOS"), ("mobileweb", "Mobile Web"), ("tizen", "Tizen"),
   ("windowsphone", "Windows Phone")]

/-- The name that a platform is shown by: its display name, or else its own name. -/
def platformName (platform : String) : String := (platformNames.lookup platform).getD platform

end ApiTypings
