/-!
# What is shown at the start of a session

The banner, and the masking of tokens wherever one is shown.
-/

namespace LiveFeed

/-- The name of the program. -/
def programName : String := "positron"

/-- The version of the program. -/
def programVersion : String := "0.1.0"

/-- What the banner tells. -/
structure Banner where
  backend : String
  authStatus : String
  database : String
  resources : List String

/-- The text of the banner. -/
def Banner.text (b : Banner) : String :=
  let resources := if b.resources.isEmpty then "none" else ", ".intercalate b.resources
  "\n   " ++ programName ++ " " ++ programVersion ++ "\n\n   backend   " ++ b.backend ++
    "\n   auth      " ++ b.authStatus ++ "\n   db        " ++ b.database ++
    "\n   watching  " ++ resources ++ "\n\n"

/-- A token as it may be shown: short ones hidden altogether, of long ones the first and the last four
characters. -/
def maskToken (token : String) : String :=
  let cs := token.toList
  if cs.length ≤ 12 then String.ofList (List.replicate cs.length '*')
  else String.ofList (cs.take 4) ++ "…" ++ String.ofList (cs.drop (cs.length - 4))

end LiveFeed
