import LineRules.Regex.Source

namespace LineRules.Spec

open Regex

def valueSource : Text :=
  "(?P<value>.*?)\\r?$"

def tagSource (name : Text) : Text :=
  "^(?P<key>" ++ (escape name ++ ("):[ \\t]*" ++ valueSource))

def macroSource (name : Text) : Text :=
  "^%global[ \\t]+(?P<key>" ++ (escape name ++ (")[ \\t]+" ++ valueSource))

def tagFlags : Flags :=
  { anyCase := true, multiLine := true }

def macroFlags : Flags :=
  { multiLine := true }

end LineRules.Spec
