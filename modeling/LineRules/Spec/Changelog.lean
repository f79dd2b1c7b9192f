import LineRules.Date

namespace LineRules.Spec

structure ChangelogEntry where
  evr : Text
  entry : Text
  email : Text
deriving DecidableEq, Repr

namespace ChangelogEntry

def headerEnd (e : ChangelogEntry) : Text :=
  if e.evr.isEmpty then "" else " - " ++ e.evr

def block (e : ChangelogEntry) (date : Date) (terminator : Text) : List Line :=
  ["* " ++ date.stamp ++ " " ++ e.email ++ e.headerEnd ++ terminator,
    "- " ++ e.entry ++ terminator, terminator]

def insertedAt (e : ChangelogEntry) (date : Date) (marker : Line) : List Line :=
  marker :: e.block date marker.terminator

end ChangelogEntry

end LineRules.Spec
