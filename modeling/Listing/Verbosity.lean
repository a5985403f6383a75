import Listing.Text.LowerCase

namespace Listing

structure LogSettings where
  debug : Option String
  level : Option String
  format : Option String
  deriving DecidableEq, Repr

namespace LogSettings

def oneOf? (words : List String) (setting : Option String) : Option String :=
  (setting.map Text.lower).filter words.contains

def isDebug (s : LogSettings) : Bool := (oneOf? ["true", "1", "yes"] s.debug).isSome

def logLevel (s : LogSettings) : String :=
  (oneOf? ["trace", "debug", "info", "warn", "error"] s.level).getD
    (if s.isDebug then "debug" else "warn")

def logFormat (s : LogSettings) : String := (oneOf? ["pretty", "compact"] s.format).getD "json"

end LogSettings

end Listing
