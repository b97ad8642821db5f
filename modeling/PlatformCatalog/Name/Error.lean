import PlatformCatalog.Name.Attribute
import PlatformCatalog.Text.Form

/-!
# Why a text is no platform name
-/

set_option autoImplicit false

namespace PlatformCatalog

open Text

inductive NameError where
  | invalidPrefix (input : String)
  | componentCount (input : String) (expected found : Nat)
  | emptyComponent (a : Attribute)
  | invalidCharacter (value : String) (character : Char)
  | invalidPercentEncoding (value : String)
  | embeddedWildcard (value : String)
  | danglingEscape (value : String)
  | invalidPackedEdition (value : String)
  | invalidPart (value : String)
  | invalidLanguage (value : String)
  deriving DecidableEq, Repr

namespace NameError

def message : NameError → String
  | .invalidPrefix input => "invalid CPE prefix in " ++ quoted input
  | .componentCount input expected found =>
    "expected " ++ toString expected ++ " components, found " ++ toString found ++ " in " ++
      quoted input
  | .emptyComponent a => "empty " ++ a.label ++ " component"
  | .invalidCharacter value character =>
    "invalid character " ++ quotedChar character ++ " in " ++ quoted value
  | .invalidPercentEncoding value => "invalid percent-encoding in " ++ quoted value
  | .embeddedWildcard value => "embedded wildcard in " ++ quoted value
  | .danglingEscape value => "dangling escape at end of " ++ quoted value
  | .invalidPackedEdition value => "invalid packed edition " ++ quoted value
  | .invalidPart value => "invalid part " ++ quoted value
  | .invalidLanguage value => "invalid language tag " ++ quoted value

end NameError

end PlatformCatalog
