import SlimTemplate.Journal

/-!
What is shown on the screen, before it is laid out. Marks such as `[bold]` are part of the text.
-/

namespace SlimTemplate.Screen

inductive Body where
  | text (s : String)
  | code (s language : String)
  deriving DecidableEq, Repr

inductive Event where
  | print (text : String)
  | panel (body : Body) (title : Option String) (style : String)
  | table (title : String) (columns : List String) (rows : List (List String))
  | prompt (text : String)
  | log (level : Level) (origin : Origin) (text : String)
  deriving DecidableEq, Repr

/-- The notes of a journal that are at least as grave as a threshold. -/
def logged (threshold : Level) (journal : Journal) : List Event :=
  journal.filterMap fun entry =>
    let (level, origin, text) := entry.asNote
    if threshold.rank ≤ level.rank then some (.log level origin text) else none

end SlimTemplate.Screen
