import SlimTemplate.Slim.Tag

/-!
Lines of a Slim document. The first characters of a line decide what it is, in a fixed order, and
every line that is not blank is something: what has no mark of its own is a tag.
-/

namespace SlimTemplate.Slim

/-- Reads one line, with what is suspicious about it. A blank line is no node. -/
def readLine (line : Nat) (cs : List Char) : Option Node × List Suspicion :=
  let content := Text.trim cs
  if content.isEmpty then (none, [])
  else
    let raw := String.ofList cs
    let indentation := cs.takeWhile Text.isBlank
    let depth : Int := indentation.length
    let tabs := if indentation.contains '\t' then [Suspicion.tabInIndentation] else []
    let node (construct : Construct) : Option Node × List Suspicion :=
      (some ⟨construct, depth, line, raw⟩, tabs)
    match content with
    | '/' :: comment => node (.comment (String.ofList (Text.trim comment)))
    | '=' :: ' ' :: code => node (.expression (String.ofList code))
    | '-' :: ' ' :: code => node (.statement (String.ofList code))
    | '|' :: ' ' :: text => node (.text (String.ofList text))
    | content =>
        if "doctype".toList.isPrefixOf content || "!!!".toList.isPrefixOf content then
          node (.doctype (String.ofList content))
        else
          let (tag, suspicions) := readTag content depth line raw
          (some tag, tabs ++ suspicions)

end SlimTemplate.Slim
