import JsonShape.World.FileTree

/-!
# Surroundings of a run

What a run finds besides its arguments and its input : files, environment variables and the home
directory of the user.
-/

namespace JsonShape

/-- Files, environment variables and the path of the home directory. -/
structure World where
  files : FileTree := {}
  environment : List (String × String) := []
  home : String := "~"
deriving Inhabited

namespace World

/-- The value of an environment variable. -/
def environmentValue? (w : World) (name : String) : Option String :=
  w.environment.lookup name

/-- A path with a tilde at its start replaced by the home directory. -/
def expand (w : World) (path : String) : String :=
  match path.toList with
  | '~' :: '/' :: rest => w.home ++ "/" ++ String.ofList rest
  | _ => path

end World

end JsonShape
