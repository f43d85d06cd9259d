/-!
# Log

What the program says on standard error. Entries are collected as values; whether debug entries are
shown and whether tags are coloured is decided only when a log is written out.

* `LogEntry` — a tagged message or a bare line.
* `Log.render` — a log as it is written.
-/

namespace StyleAssets

/-- A message under a tag, shown always or only to those who ask for details, or a bare line. -/
inductive LogEntry where
  | tagged (tag : String) (message : String) (debug : Bool)
  | bare (line : String)
  deriving DecidableEq, Repr

/-- Entries, oldest first. -/
abbrev Log := List LogEntry

/-- The control character that starts a terminal sequence. -/
def escapeCharacter : String := "\x1b"

namespace Colour

def paint (colour : Bool) (codes text : String) : String :=
  if colour then escapeCharacter ++ "[" ++ codes ++ "m" ++ text ++ escapeCharacter ++ "[0m"
  else text

end Colour

namespace LogEntry

def log (tag message : String) : LogEntry := .tagged tag message false

def debug (tag message : String) : LogEntry := .tagged tag message true

def warning (message : String) : LogEntry := .log "warning" message

def error (message : String) : LogEntry := .log "error" message

def isShown (verbose : Bool) : LogEntry → Bool
  | .tagged _ _ debug => verbose || !debug
  | .bare _ => true

/-- The terminal codes of a tag, letter case aside. -/
def tagCodes (tag : String) : String :=
  match String.ofList (tag.toList.map Char.toLower) with
  | "rewrite" => "94;1"
  | "done" => "92;1"
  | "error" => "91;1"
  | _ => "93;1"

/-- An entry as it is written. Tagged lines first clear the rest of the terminal line. -/
def render (colour : Bool) : LogEntry → String
  | .tagged tag message _ =>
    escapeCharacter ++ "[K" ++ Colour.paint colour (tagCodes tag) ("[" ++ tag ++ "]") ++ " " ++
      message ++ "\n"
  | .bare line => line ++ "\n"

end LogEntry

def Log.render (verbose colour : Bool) (log : Log) : String :=
  String.join ((log.filter (·.isShown verbose)).map (·.render colour))

end StyleAssets
