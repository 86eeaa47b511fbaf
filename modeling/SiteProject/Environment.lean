import SiteProject.Text.Basic

namespace SiteProject

/-- The variables that are set. -/
abbrev Environment := List (Text × Text)

def Environment.get? (env : Environment) (name : String) : Option Text :=
  (env.find? fun v => v.1 == name.toList).map Prod.snd

end SiteProject
