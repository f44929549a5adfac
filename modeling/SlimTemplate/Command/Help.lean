import SlimTemplate.Command.Arguments

/-!
The pages of help: how each command is used, and its switches.
-/

namespace SlimTemplate.Command

def switchLines (switches : List (Switch κ)) : List String :=
  switches.map fun switch =>
    "  " ++ ", ".intercalate switch.names ++ if switch.takesValue then " VALUE" else ""

def Page.lines : Page → List String
  | .general =>
      ["usage: slim2erb [switches] Command ...", "",
       "Converts Slim templates to ERB.", "", "commands:"] ++
      Verb.all.map (fun verb => "  " ++ verb.name) ++ ["", "switches:"] ++
      switchLines generalSwitches
  | .about verb =>
      ["usage: slim2erb " ++ verb.name ++ " [switches] path", "", "switches:"] ++
      switchLines verb.switches

def Page.text (page : Page) : String :=
  "\n".intercalate page.lines

end SlimTemplate.Command
