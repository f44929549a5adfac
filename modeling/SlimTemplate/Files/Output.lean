import SlimTemplate.Path

/-!
Where the output of a source goes: next to the source, or into an output directory, in which the
directories below the scanned root are kept.
-/

namespace SlimTemplate.Files

def outputSuffix : String := ".erb"

/-- An empty output directory counts as none. -/
def givenDirectory? : Option String → Option Path
  | none | some "" => none
  | some directory => some (.ofText directory)

/-- The directories to keep below the output directory. -/
def keptDirectories (source : Path) (root : Option Path) : List String :=
  ((root.bind source.parent.relativeTo?).getD [])

def outputPath (source : Path) (outputDirectory : Option String) (root : Option Path) :
    Except Path.EmptyName Path :=
  let name := source.stem ++ outputSuffix
  match givenDirectory? outputDirectory with
  | none => source.withName name
  | some directory =>
      .ok { directory with parts := directory.parts ++ keptDirectories source root ++ [name] }

end SlimTemplate.Files
