-- SUMMARY: Variables of the environment and the settings that they give.
import Wordstack.Settings.Value

/-!
# The environment

Variables are listed in the order in which they were set.
-/

namespace Wordstack

/-- Variables and their values. -/
abbrev Environment := List (String × String)

namespace Environment

def get? (env : Environment) (name : String) : Option String := env.lookup name

/-- Sets a variable unless it is set. -/
def supply (env : Environment) (name value : String) : Environment :=
  if (env.get? name).isSome then env else env ++ [(name, value)]

/-- The name of a setting that a variable's name stands for, in any case. -/
def settingName? (name : String) : Option String :=
  let name := (Text.lowercase name).toList
  let start := "numen_".toList
  if start.isPrefixOf name then some (String.ofList (name.drop start.length)) else none

/-- The settings that the variables give. Empty ones give none. -/
def settings (env : Environment) : List (String × RawValue) :=
  env.filterMap fun (name, value) =>
    if value = "" then none
    else (settingName? name).map fun key => (key, RawValue.ofVariable value)

end Environment

end Wordstack
